import Mathlib.Data.List.Induction
import Mathlib.Data.List.Perm.Basic
import Mathlib.Tactic.Common

/-!
# Settings

A record has *options*, and a *setting* is a value for one of them. Entries of some source,
such as flags or members of a file, are read one after another, and each gives a setting, or
is passed over, or is invalid, which ends the pass. Several entries may name one option.

What a pass leaves in an option is what the last entry that names it gives, so the order of
the entries matters as far as entries that name one option disagree, and no further.

## Main results

* `Reader.pass_ok_iff`: a pass succeeds when every entry is valid, in whatever order.
* `Reader.read_of_pass`: **the last entry that names an option decides it.**
* `Reader.all_orders_iff`: of a table of entries **every order gives the same result if and
  only if the entries that name one option agree**.
* `Reader.same_iff`: two passes over different entries have the same outcome.
-/

namespace Settings

/-! ### Tables

A table keeps one entry for each key. Two keys may name one option. -/

section Tables

variable {κ ν : Type*} [DecidableEq κ]

/-- `table[key] = value`. -/
def put (table : List (κ × ν)) (entry : κ × ν) : List (κ × ν) :=
  (table.filter fun e => e.1 ≠ entry.1) ++ [entry]

/-- The entry is the last with its key. -/
def Newest (history : List (κ × ν)) (entry : κ × ν) : Prop :=
  (history.filter fun e => e.1 = entry.1).getLast? = some entry

theorem newest_concat {history : List (κ × ν)} {entry e : κ × ν} :
    Newest (history ++ [entry]) e ↔ e = entry ∨ (e.1 ≠ entry.1 ∧ Newest history e) := by
  by_cases hkey : entry.1 = e.1
  · simp [Newest, List.filter_append, hkey, eq_comm]
  · have hne : e ≠ entry := fun he => hkey (congrArg Prod.fst he.symm)
    simp [Newest, List.filter_append, hkey, Ne.symm hkey, hne]

/-- **The table holds the newest entry of each key.** -/
theorem mem_foldl_put {history : List (κ × ν)} {e : κ × ν} :
    e ∈ history.foldl put [] ↔ Newest history e := by
  induction history using List.reverseRecOn with
  | nil => simp [Newest]
  | append_singleton history entry ih =>
      rw [List.foldl_append, List.foldl_cons, List.foldl_nil, newest_concat, ← ih, put,
        List.mem_append, List.mem_filter, List.mem_singleton, decide_eq_true_eq]
      exact ⟨fun h => h.elim (fun h => Or.inr ⟨h.2, h.1⟩) Or.inl,
        fun h => h.elim Or.inr fun h => Or.inl ⟨h.2, h.1⟩⟩

theorem Newest.mem {history : List (κ × ν)} {e : κ × ν} (h : Newest history e) : e ∈ history :=
  (List.mem_filter.mp (List.mem_of_getLast? h)).1

/-- Dropping entries of other keys. -/
theorem newest_filter {history : List (κ × ν)} {e : κ × ν} {keep : κ × ν → Bool}
    (h : ∀ e', e'.1 = e.1 → keep e' = true) :
    Newest (history.filter keep) e ↔ Newest history e := by
  rw [Newest, Newest, List.filter_filter]
  have hfilter : history.filter (fun e' => decide (e'.1 = e.1) && keep e') =
      history.filter fun e' => decide (e'.1 = e.1) := by
    refine List.filter_congr fun e' _ => ?_
    by_cases he : e'.1 = e.1
    · simp [he, h e' he]
    · simp [he]
  rw [hfilter]

end Tables

/-! ### Records and readers -/

/-- A record with options: settings can be written, and what an option is set to can be read
back. -/
structure Fields (σ ο ς : Type*) where
  option : ς → ο
  write : σ → ς → σ
  read : σ → ο → ς
  read_write_self : ∀ s c, read (write s c) (option c) = c
  read_write_of_ne : ∀ s c o, o ≠ option c → read (write s c) o = read s o

variable {σ ο ς ε φ : Type*}

/-- How the entries of a source are understood: the option an entry names, if it names one,
and the setting it gives. An entry without a setting is passed over. -/
structure Reader (F : Fields σ ο ς) (ε φ : Type*) where
  names : ε → Option ο
  parse : ε → Except φ (Option ς)
  names_of_parse : ∀ e c, parse e = .ok c → names e = c.map F.option

namespace Reader

variable {F : Fields σ ο ς} (R : Reader F ε φ)

/-- An entry that can be understood. -/
def Valid (e : ε) : Prop := ∃ c, R.parse e = .ok c

/-- The setting an entry gives, if it gives one. -/
def given (e : ε) : Option ς :=
  match R.parse e with
  | .ok c => c
  | .error _ => none

/-- One entry of a pass. -/
def step (s : σ) (e : ε) : Except φ σ := (R.parse e).map fun c => c.elim s (F.write s)

/-- A pass over the entries. -/
def pass (s : σ) (entries : List ε) : Except φ σ := entries.foldlM R.step s

variable [DecidableEq ο]

/-- The last entry that names the option. -/
def last (o : ο) (entries : List ε) : Option ε :=
  (entries.filter fun e => R.names e = some o).getLast?

/-- What the entries say about an option: what the last one that names it gives, and what the
record had before if there is none. -/
def value (s : σ) (entries : List ε) (o : ο) : ς :=
  ((R.last o entries).bind R.given).getD (F.read s o)

variable {R} {s s' : σ} {e e' : ε} {o : ο} {entries entries' : List ε}

/-! ### Single entries -/

omit [DecidableEq ο] in
theorem given_of_parse {c : Option ς} (h : R.parse e = .ok c) : R.given e = c := by
  simp only [given, h]

omit [DecidableEq ο] in
/-- A valid entry that names an option gives a setting of it. -/
theorem Valid.exists_given (h : R.Valid e) (ho : R.names e = some o) :
    ∃ c, R.given e = some c ∧ F.option c = o := by
  obtain ⟨c, hc⟩ := h
  rw [R.names_of_parse e c hc, Option.map_eq_some_iff] at ho
  obtain ⟨c', rfl, rfl⟩ := ho
  exact ⟨c', given_of_parse hc, rfl⟩

omit [DecidableEq ο] in
theorem step_eq_ok_iff :
    R.step s e = .ok s' ↔ ∃ c, R.parse e = .ok c ∧ c.elim s (F.write s) = s' := by
  cases h : R.parse e with
  | error message => simp [step, h, Except.map]
  | ok c => simp [step, h, Except.map]

omit [DecidableEq ο] in
/-- **One entry decides the option it names** and leaves the others alone. -/
theorem read_of_step (h : R.step s e = .ok s') (o : ο) :
    (R.names e = some o → R.given e = some (F.read s' o)) ∧
      (R.names e ≠ some o → F.read s' o = F.read s o) := by
  obtain ⟨c, hc, rfl⟩ := step_eq_ok_iff.mp h
  rw [R.names_of_parse e c hc, given_of_parse hc]
  cases c with
  | none => exact ⟨fun ho => absurd ho (by simp), fun _ => rfl⟩
  | some c =>
      constructor
      · intro ho
        obtain rfl := Option.some.inj ho
        exact (congrArg some (F.read_write_self s c)).symm
      · intro ho
        exact F.read_write_of_ne s c o fun heq => ho (congrArg some heq.symm)

/-! ### The last entry -/

theorem last_concat (o : ο) (entries : List ε) (e : ε) :
    R.last o (entries ++ [e]) = if R.names e = some o then some e else R.last o entries := by
  by_cases ho : R.names e = some o
  · simp [last, List.filter_append, ho]
  · simp [last, List.filter_append, ho]

theorem last_eq_none_iff : R.last o entries = none ↔ ∀ e ∈ entries, R.names e ≠ some o := by
  simp [last]

theorem mem_of_last (h : R.last o entries = some e) : e ∈ entries ∧ R.names e = some o := by
  simpa using List.mem_filter.mp (List.mem_of_getLast? h)

/-- Entries that name an option have a last one. -/
theorem exists_last (he : e ∈ entries) (ho : R.names e = some o) :
    ∃ e', R.last o entries = some e' := by
  rw [← Option.isSome_iff_exists, Option.isSome_iff_ne_none]
  intro hnone
  exact last_eq_none_iff.mp hnone e he ho

/-- Dropping entries that do not name the option. -/
theorem last_filter {p : ε → Bool} (h : ∀ e ∈ entries, R.names e = some o → p e) :
    R.last o (entries.filter p) = R.last o entries := by
  rw [last, last, List.filter_filter]
  congr 1
  refine List.filter_congr fun e he => ?_
  by_cases ho : R.names e = some o
  · simp [ho, h e he ho]
  · simp [ho]

/-- Entries that follow without naming the option. -/
theorem last_append_of_not_named (h : ∀ e ∈ entries', R.names e ≠ some o) :
    R.last o (entries ++ entries') = R.last o entries := by
  have hnil : entries'.filter (fun e => R.names e = some o) = [] :=
    List.filter_eq_nil_iff.mpr (by simpa using h)
  rw [last, List.filter_append, hnil, List.append_nil, last]

/-- Entries before without the option. -/
theorem last_append_of_not_named_left (h : ∀ e ∈ entries, R.names e ≠ some o) :
    R.last o (entries ++ entries') = R.last o entries' := by
  have hnil : entries.filter (fun e => R.names e = some o) = [] :=
    List.filter_eq_nil_iff.mpr (by simpa using h)
  rw [last, List.filter_append, hnil, List.nil_append, last]

/-- Bringing some entries to the end, all or none of those that name the option. -/
theorem last_partition {p : ε → Bool}
    (h : ∀ e ∈ entries, ∀ e' ∈ entries, R.names e = some o → R.names e' = some o → p e = p e') :
    R.last o ((entries.filter fun e => !p e) ++ entries.filter p) = R.last o entries := by
  by_cases hp : ∃ e ∈ entries, R.names e = some o ∧ p e
  · obtain ⟨e, he, ho, hpe⟩ := hp
    have hall : ∀ e' ∈ entries, R.names e' = some o → p e' := fun e' he' ho' =>
      (h e he e' he' ho ho') ▸ hpe
    rw [last_append_of_not_named_left, last_filter hall]
    intro e' he' ho'
    obtain ⟨hmem, hnot⟩ := List.mem_filter.mp he'
    simp [hall e' hmem ho'] at hnot
  · have hnone : ∀ e ∈ entries, R.names e = some o → p e = false := by
      intro e he ho
      by_contra hpe
      exact hp ⟨e, he, ho, by simpa using hpe⟩
    rw [last_append_of_not_named, last_filter fun e he ho => by simp [hnone e he ho]]
    intro e he ho
    obtain ⟨hmem, hpe⟩ := List.mem_filter.mp he
    rw [hnone e hmem ho] at hpe
    exact absurd hpe (by decide)

theorem value_of_last (h : R.last o entries = some e) {c : ς} (hc : R.given e = some c) :
    R.value s entries o = c := by
  simp [value, h, hc]

theorem value_of_last_eq_none (h : R.last o entries = none) :
    R.value s entries o = F.read s o := by
  simp [value, h]

theorem value_congr (h : R.last o entries = R.last o entries') :
    R.value s entries o = R.value s entries' o := by
  rw [value, value, h]

/-! ### A pass -/

omit [DecidableEq ο] in
theorem pass_append (s : σ) (entries entries' : List ε) :
    R.pass s (entries ++ entries') = R.pass s entries >>= fun s' => R.pass s' entries' :=
  List.foldlM_append

omit [DecidableEq ο] in
/-- A loop that looks for entries, and heeds those it finds. -/
theorem foldlM_eq_pass {α : Type*} {f : σ → α → Except φ σ} {find : α → Option ε} {xs : List α}
    (h : ∀ x ∈ xs, ∀ s, f s x = (find x).elim (pure s) (R.step s)) (s : σ) :
    xs.foldlM f s = R.pass s (xs.filterMap find) := by
  induction xs generalizing s with
  | nil => rfl
  | cons x xs ih =>
      have ih' := ih fun y hy => h y (List.mem_cons_of_mem _ hy)
      rw [List.foldlM_cons, h x List.mem_cons_self]
      cases hfind : find x with
      | none =>
          rw [List.filterMap_cons_none hfind]
          exact ih' s
      | some e =>
          rw [List.filterMap_cons_some hfind, pass, List.foldlM_cons]
          exact congrArg _ (funext ih')

omit [DecidableEq ο] in
theorem pass_concat (s : σ) (entries : List ε) (e : ε) :
    R.pass s (entries ++ [e]) = (R.pass s entries).bind fun s' => R.step s' e := by
  rw [pass_append]
  congr 1
  funext s'
  simp [pass]

omit [DecidableEq ο] in
/-- **A pass succeeds exactly on valid entries**, whatever their order. -/
theorem pass_ok_iff : (∃ s', R.pass s entries = .ok s') ↔ ∀ e ∈ entries, R.Valid e := by
  induction entries using List.reverseRecOn with
  | nil => simp [pass, pure, Except.pure]
  | append_singleton entries e ih =>
      rw [pass_concat]
      constructor
      · rintro ⟨s', h⟩
        cases hpass : R.pass s entries with
        | error message => simp [hpass, Except.bind] at h
        | ok s₁ =>
            rw [hpass] at h
            obtain ⟨c, hc, -⟩ := step_eq_ok_iff.mp h
            intro e' he'
            rcases List.mem_append.mp he' with he' | he'
            · exact ih.mp ⟨s₁, hpass⟩ e' he'
            · rw [List.mem_singleton.mp he']
              exact ⟨c, hc⟩
      · intro hvalid
        obtain ⟨s₁, hpass⟩ := ih.mpr fun e' he' => hvalid e' (List.mem_append_left _ he')
        obtain ⟨c, hc⟩ := hvalid e (by simp)
        rw [hpass]
        exact ⟨_, step_eq_ok_iff.mpr ⟨c, hc, rfl⟩⟩

/-- **The last entry that names an option decides it**, by induction over the entries from
the end. -/
theorem read_of_pass (h : R.pass s entries = .ok s') (o : ο) :
    F.read s' o = R.value s entries o := by
  induction entries using List.reverseRecOn generalizing s' with
  | nil =>
      obtain rfl : s = s' := by simpa [pass, pure, Except.pure] using h
      rw [value_of_last_eq_none (by simp [last])]
  | append_singleton entries e ih =>
      rw [pass_concat] at h
      cases hpass : R.pass s entries with
      | error message => simp [hpass, Except.bind] at h
      | ok s₁ =>
          rw [hpass] at h
          obtain ⟨hnamed, hother⟩ := read_of_step h o
          by_cases ho : R.names e = some o
          · rw [value_of_last (by rw [last_concat, if_pos ho]) (hnamed ho)]
          · rw [hother ho, ih hpass, value, value, last_concat, if_neg ho]

/-! ### Orders -/

/-- Any entry can be the last of its table. -/
theorem exists_perm_last (he : e ∈ entries) (ho : R.names e = some o) :
    ∃ entries', entries'.Perm entries ∧ R.last o entries' = some e := by
  obtain ⟨before, after, rfl⟩ := List.append_of_mem he
  refine ⟨before ++ after ++ [e], ?_, by rw [last_concat, if_pos ho]⟩
  rw [List.append_assoc]
  exact (List.perm_append_singleton e after).append_left before

/-- **Every order of a table gives what the history says if and only if the entries that name
one option agree.** The table holds the last entry of each option in the history, and names
no option that the history does not. -/
theorem all_orders_iff {table history : List ε} (hvalid : ∀ e ∈ table, R.Valid e)
    (hlast : ∀ o e, R.last o history = some e → e ∈ table)
    (hnamed : ∀ e ∈ table, ∀ o, R.names e = some o → ∃ e', R.last o history = some e') :
    (∀ order, order.Perm table → ∀ o, R.value s order o = R.value s history o) ↔
      ∀ e ∈ table, ∀ e' ∈ table, ∀ o, R.names e = some o → R.names e' = some o →
        R.given e = R.given e' := by
  constructor
  · intro h e he e' he' o ho ho'
    -- each of the two is put last, and the history does not change
    have hagree : ∀ e ∈ table, R.names e = some o → R.given e = some (R.value s history o) := by
      intro e he ho
      obtain ⟨order, hperm, horder⟩ := exists_perm_last he ho
      obtain ⟨c, hc, -⟩ := (hvalid e he).exists_given ho
      rw [← h order hperm o, value_of_last horder hc, hc]
    rw [hagree e he ho, hagree e' he' ho']
  · intro h order hperm o
    cases ho : R.last o order with
    | none =>
        rw [value_of_last_eq_none ho]
        refine (value_of_last_eq_none ?_).symm
        by_contra hsome
        obtain ⟨e, he⟩ := Option.ne_none_iff_exists'.mp hsome
        exact last_eq_none_iff.mp ho e (hperm.mem_iff.mpr (hlast o e he)) (mem_of_last he).2
    | some e =>
        obtain ⟨hmem, hname⟩ := mem_of_last ho
        have he := hperm.mem_iff.mp hmem
        obtain ⟨e', he'⟩ := hnamed e he o hname
        obtain ⟨c, hc, -⟩ := (hvalid e he).exists_given hname
        have hgiven := h e he e' (hlast o e' he') o hname (mem_of_last he').2
        rw [value_of_last ho hc, value_of_last he' (hgiven ▸ hc)]

/-! ### Tables in any order -/

variable {κ ν : Type*} [DecidableEq κ]

/-- The last entry of an option is the newest of its key. -/
theorem newest_of_last {R : Reader F (κ × ν) φ} {history : List (κ × ν)} {e : κ × ν}
    (hkey : ∀ e e', e.1 = e'.1 → R.names e = R.names e') (h : R.last o history = some e) :
    Newest history e := by
  obtain ⟨before, hbefore⟩ := List.getLast?_eq_some_iff.mp h
  have hfilter : history.filter (fun x => x.1 = e.1) =
      (history.filter fun x => R.names x = some o).filter fun x => x.1 = e.1 := by
    rw [List.filter_filter]
    refine List.filter_congr fun x _ => ?_
    by_cases hx : x.1 = e.1
    · simp [hx, (hkey x e hx).trans (mem_of_last h).2]
    · simp [hx]
  rw [Newest, hfilter, hbefore, List.filter_append]
  simp

/-- **A table in any order gives what its history says if and only if the newest entries of
the keys of one option agree.** -/
theorem all_orders_table_iff {R : Reader F (κ × ν) φ} {history : List (κ × ν)}
    (hkey : ∀ e e', e.1 = e'.1 → R.names e = R.names e')
    (hvalid : ∀ e ∈ history.foldl put [], R.Valid e) :
    (∀ order, order.Perm (history.foldl put []) →
        ∀ o, R.value s order o = R.value s history o) ↔
      ∀ e e', Newest history e → Newest history e' → ∀ o, R.names e = some o →
        R.names e' = some o → R.given e = R.given e' := by
  rw [all_orders_iff hvalid]
  · constructor
    · intro h e e' he he'
      exact h e (mem_foldl_put.mpr he) e' (mem_foldl_put.mpr he')
    · intro h e he e' he'
      exact h e e' (mem_foldl_put.mp he) (mem_foldl_put.mp he')
  · intro o e he
    exact mem_foldl_put.mpr (newest_of_last hkey he)
  · intro e he o ho
    exact exists_last (mem_foldl_put.mp he).mem ho

/-! ### Outcomes -/

omit [DecidableEq ο] in
/-- Two outcomes that cannot be told apart but for the text of the error: both fail, or both
leave the same in every option. -/
def Same (F : Fields σ ο ς) : Except φ σ → Except φ σ → Prop
  | .ok s, .ok s' => ∀ o, F.read s o = F.read s' o
  | .error _, .error _ => True
  | _, _ => False

/-- **When a pass over some of the entries does for a pass over all**: one of them is invalid,
or all entries are valid and the two say the same. -/
theorem same_iff {part all : List ε} (hsub : ∀ e ∈ part, e ∈ all) :
    Same F (R.pass s part) (R.pass s all) ↔
      (∃ e ∈ part, ¬ R.Valid e) ∨
        ((∀ e ∈ all, R.Valid e) ∧ ∀ o, R.value s part o = R.value s all o) := by
  by_cases hpart : ∀ e ∈ part, R.Valid e
  · have hno : ¬ ∃ e ∈ part, ¬ R.Valid e := by
      rintro ⟨e, he, hinvalid⟩
      exact hinvalid (hpart e he)
    obtain ⟨s₁, h₁⟩ : ∃ s₁, R.pass s part = .ok s₁ := pass_ok_iff.mpr hpart
    by_cases hall : ∀ e ∈ all, R.Valid e
    · obtain ⟨s₂, h₂⟩ : ∃ s₂, R.pass s all = .ok s₂ := pass_ok_iff.mpr hall
      simp only [h₁, h₂, Same, hno, false_or, read_of_pass h₁, read_of_pass h₂]
      exact ⟨fun h => ⟨hall, h⟩, fun h => h.2⟩
    · cases h₂ : R.pass s all with
      | error message => simp [h₁, Same, hno, hall]
      | ok s₂ => exact absurd (pass_ok_iff.mp ⟨s₂, h₂⟩) hall
  · have hall : ¬ ∀ e ∈ all, R.Valid e := fun h => hpart fun e he => h e (hsub e he)
    cases h₁ : R.pass s part with
    | ok s₁ => exact absurd (pass_ok_iff.mp ⟨s₁, h₁⟩) hpart
    | error message =>
        cases h₂ : R.pass s all with
        | ok s₂ => exact absurd (pass_ok_iff.mp ⟨s₂, h₂⟩) hall
        | error message' =>
            simp only [Same, true_iff]
            left
            simpa using hpart

end Reader

end Settings
