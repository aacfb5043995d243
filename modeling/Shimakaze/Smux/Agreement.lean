import Shimakaze.Smux.Evolution

/-!
# What Two Ends Have to Agree On

The programs at the two ends of a tunnel are configured one by one. Windows, buffer and frame
sizes and timers are each end's own business: the frames carry what the other end needs of
them. `Setting.Agree` lists what is left, the settings that the bytes on the transport and the
ciphers depend on. Whatever is said about frames and bytes under the settings of one end then
holds under those of the other.

## Main results

* `Setting.Agree.ledgerInv`, `Setting.Agree.received`: the books and the progress of a session
  read the same at both ends.
-/

namespace Shimakaze

open Ledger (LedgerInv)

/-- The settings of two ends agree on what both need to know. -/
structure Setting.Agree (a b : Setting) : Prop where
  smuxver : a.config.smuxver = b.config.smuxver
  nocomp : a.config.nocomp = b.config.nocomp
  key : a.config.key = b.config.key
  qpp : a.config.qpp = b.config.qpp
  qppCount : a.config.qppCount = b.config.qppCount
  prims : a.prims = b.prims
  snappy : a.snappy = b.snappy

namespace Setting.Agree

variable {a b : Setting}

theorem refl (a : Setting) : Agree a a := ⟨rfl, rfl, rfl, rfl, rfl, rfl, rfl⟩

theorem symm (h : Agree a b) : Agree b a :=
  ⟨h.smuxver.symm, h.nocomp.symm, h.key.symm, h.qpp.symm, h.qppCount.symm, h.prims.symm,
    h.snappy.symm⟩

/-! ### Frames and bytes -/

theorem versionByte_eq (h : Agree a b) : a.config.versionByte = b.config.versionByte := by
  rw [BaseConfig.versionByte, h.smuxver, BaseConfig.versionByte]

theorem flowControlled_eq (h : Agree a b) :
    a.config.flowControlled = b.config.flowControlled := by
  rw [BaseConfig.flowControlled, h.smuxver, BaseConfig.flowControlled]

theorem frameBytes_eq (h : Agree a b) : frameBytes a.config = frameBytes b.config := by
  funext frame
  rw [frameBytes, h.versionByte_eq, frameBytes]

theorem sendable (h : Agree a b) {frame : Frame} (hframe : frame.Sendable a.config) :
    frame.Sendable b.config :=
  ⟨hframe.1, fun hupd => h.flowControlled_eq ▸ hframe.2 hupd⟩

theorem transportBytes_eq (h : Agree a b) : transportBytes a = transportBytes b := by
  funext encoder frames
  simp only [transportBytes, compressedItems, h.nocomp, h.snappy, h.frameBytes_eq]

theorem compressorAfter_eq (h : Agree a b) : compressorAfter a = compressorAfter b := by
  funext encoder frames
  simp only [compressorAfter, h.nocomp]

theorem nextFrame_eq (h : Agree a b) : nextFrame a.config = nextFrame b.config := by
  funext buffer
  simp only [nextFrame, checkCommand, h.versionByte_eq, h.flowControlled_eq]

theorem frameFraming_eq (h : Agree a b) : frameFraming a.config = frameFraming b.config := by
  simp only [frameFraming, h.nextFrame_eq]

/-! ### Sessions -/

/-- Both ends make the same pad. -/
theorem makePad_eq (h : Agree a b) : SmuxSession.makePad a = SmuxSession.makePad b := by
  simp only [SmuxSession.makePad, h.qpp, h.prims, h.key, h.qppCount]

/-- Both ends start their ciphers the same way. -/
theorem seed_eq (h : Agree a b) : a.seed = b.seed := by
  funext pad
  rw [Setting.seed, h.prims, h.key, Setting.seed]

/-- The books of a session read the same at both ends. -/
theorem ledgerInv (h : Agree a b) {l : Ledger} (hl : LedgerInv a l) : LedgerInv b l where
  table := hl.table
  distinct := hl.distinct
  origin := hl.origin
  next := hl.next
  opened := hl.opened
  orderly := hl.orderly
  answered := hl.answered
  sendable frame hframe := h.sendable (hl.sendable frame hframe)
  accord r hr := by
    have haccord := hl.accord r hr
    rw [Ledger.Accord, h.seed_eq] at haccord
    exact haccord

/-- So does the progress of a session. -/
theorem received (h : Agree a b) {s : SmuxSession} {arrived : Bytes}
    (hs : s.Received a arrived) : s.Received b arrived where
  isOpen := hs.isOpen
  parsed := by
    obtain ⟨plain, hunpacked, hparsed⟩ := hs.parsed
    refine ⟨plain, ?_, h.frameFraming_eq ▸ hparsed⟩
    rw [Unpacked, h.nocomp, h.snappy] at hunpacked
    exact hunpacked

end Setting.Agree

end Shimakaze
