import Mathlib.Data.Set.BooleanAlgebra
import Mathlib.Order.CompletePartialOrder
import Mathlib.Order.Interval.Set.Disjoint
import RpcMt.RecHeaders

/-! The memory of a record stream. `xdrrec_create` rounds two sizes, adds them up in `u_int`, and lays out an
output buffer and an input buffer in the block that `mem_alloc` returns, from the first aligned address on. -/

namespace RpcMt

namespace XdrRec

/-- The pointers and sizes that `xdrrec_create` sets, and the block they point into. -/
structure Layout where
  sendsize : Nat
  recvsize : Nat
  theBuffer : Nat
  size : Nat
  outBase : Nat
  outFinger : Nat
  outBoundry : Nat
  fragHeader : Nat
  inBase : Nat
  inFinger : Nat
  inBoundry : Nat
  inSize : Nat
  deriving DecidableEq, Repr

/-- `xdrrec_create`, with the address that `mem_alloc` returns for the block. -/
def xdrrecCreate (sendsize recvsize buf : Nat) : Layout :=
  let sendsize := fixBufSize sendsize
  let recvsize := fixBufSize recvsize
  let size := (sendsize + recvsize + 4) % uintRange
  let phase := buf % 4
  let tmp := if phase ≠ 0 then buf + (4 - phase) else buf
  let inBase := tmp + sendsize
  { sendsize := sendsize
    recvsize := recvsize
    theBuffer := buf
    size := size
    outBase := tmp
    outFinger := tmp + 4
    outBoundry := tmp + sendsize
    fragHeader := tmp
    inBase := inBase
    inFinger := inBase + recvsize
    inBoundry := inBase + recvsize
    inSize := recvsize }

namespace Layout

def block (l : Layout) : Set Nat := Set.Ico l.theBuffer (l.theBuffer + l.size)

def output (l : Layout) : Set Nat := Set.Ico l.outBase (l.outBase + l.sendsize)

def input (l : Layout) : Set Nat := Set.Ico l.inBase (l.inBase + l.recvsize)

/-- Two buffers that are aligned, long enough, apart from each other, and in the block. -/
structure Sound (l : Layout) : Prop where
  disjoint : Disjoint l.output l.input
  outAligned : 4 ∣ l.outBase
  inAligned : 4 ∣ l.inBase
  outLeast : 100 ≤ l.sendsize
  inLeast : 100 ≤ l.recvsize
  outBlock : l.output ⊆ l.block
  inBlock : l.input ⊆ l.block

end Layout

/-- A size as `fix_buf_size` would round it without a limit: up to a multiple of four, or the default. -/
def rounded (s : Nat) : Nat := if s < 100 then 4000 else (s + 3) / 4 * 4

theorem fixBufSize_eq_rounded {s : Nat} (h : rounded s < uintRange) : fixBufSize s = rounded s := by
  unfold rounded uintRange at h
  unfold fixBufSize rounded uintRange
  dsimp only
  split at h <;> split <;> omega

theorem fixBufSize_wraps {s : Nat} (hs : s < uintRange) (h : ¬ rounded s < uintRange) : fixBufSize s = 0 := by
  unfold rounded uintRange at h
  unfold uintRange at hs
  unfold fixBufSize uintRange
  dsimp only
  split at h <;> split <;> omega

theorem rounded_of_least {s : Nat} (hs : s < uintRange) (h : 100 ≤ fixBufSize s) :
    fixBufSize s = rounded s ∧ rounded s < uintRange := by
  by_cases hround : rounded s < uintRange
  · exact ⟨fixBufSize_eq_rounded hround, hround⟩
  · rw [fixBufSize_wraps hs hround] at h
    exact absurd h (by decide)

theorem rounded_spec (s : Nat) : 4 ∣ rounded s ∧ 100 ≤ rounded s := by
  unfold rounded
  split <;> omega

theorem outBase_spec (sendsize recvsize buf : Nat) :
    4 ∣ (xdrrecCreate sendsize recvsize buf).outBase ∧ buf ≤ (xdrrecCreate sendsize recvsize buf).outBase ∧
      (xdrrecCreate sendsize recvsize buf).outBase ≤ buf + 3 := by
  unfold xdrrecCreate
  dsimp only
  split <;> omega

namespace Layout

variable {sendsize recvsize : Nat}

theorem sound_of_fits (buf : Nat) (h : rounded sendsize + rounded recvsize + 4 < uintRange) :
    (xdrrecCreate sendsize recvsize buf).Sound := by
  have hsend : fixBufSize sendsize = rounded sendsize := fixBufSize_eq_rounded (by omega)
  have hrecv : fixBufSize recvsize = rounded recvsize := fixBufSize_eq_rounded (by omega)
  have hsize : (xdrrecCreate sendsize recvsize buf).size = rounded sendsize + rounded recvsize + 4 := by
    show (fixBufSize sendsize + fixBufSize recvsize + 4) % uintRange = _
    rw [hsend, hrecv, Nat.mod_eq_of_lt h]
  obtain ⟨haligned, hlow, hhigh⟩ := outBase_spec sendsize recvsize buf
  obtain ⟨hsend4, hsend100⟩ := rounded_spec sendsize
  obtain ⟨_, hrecv100⟩ := rounded_spec recvsize
  have hinBase : (xdrrecCreate sendsize recvsize buf).inBase =
      (xdrrecCreate sendsize recvsize buf).outBase + rounded sendsize := congrArg (_ + ·) hsend
  refine ⟨?_, haligned, ?_, ?_, ?_, ?_, ?_⟩
  · refine Set.disjoint_left.mpr ?_
    rintro a ⟨_, hout⟩ ⟨hin, _⟩
    exact absurd hin (Nat.not_le.mpr hout)
  · rw [hinBase]
    exact Nat.dvd_add haligned hsend4
  · show 100 ≤ fixBufSize sendsize
    rw [hsend]
    exact hsend100
  · show 100 ≤ fixBufSize recvsize
    rw [hrecv]
    exact hrecv100
  · refine Set.Ico_subset_Ico hlow ?_
    rw [hsize]
    show _ + fixBufSize sendsize ≤ buf + _
    omega
  · refine Set.Ico_subset_Ico ?_ ?_
    · rw [hinBase]
      exact Nat.le_add_right_of_le hlow
    · rw [hinBase, hsize]
      show _ + _ + fixBufSize recvsize ≤ buf + _
      omega

/-- Buffers that are in the block and not empty are no longer together than the block. -/
theorem fits_of_sound (hsend : sendsize < uintRange) (hrecv : recvsize < uintRange) {buf : Nat}
    (h : (xdrrecCreate sendsize recvsize buf).Sound) : rounded sendsize + rounded recvsize + 4 < uintRange := by
  obtain ⟨_, hlow, _⟩ := outBase_spec sendsize recvsize buf
  obtain ⟨hsend', hsendlt⟩ := rounded_of_least hsend h.outLeast
  obtain ⟨hrecv', hrecvlt⟩ := rounded_of_least hrecv h.inLeast
  have hne : (xdrrecCreate sendsize recvsize buf).inBase <
      (xdrrecCreate sendsize recvsize buf).inBase + (xdrrecCreate sendsize recvsize buf).recvsize :=
    Nat.lt_add_of_pos_right (Nat.lt_of_lt_of_le (by decide) h.inLeast)
  have hend := ((Set.Ico_subset_Ico_iff hne).mp h.inBlock).2
  have htotal : fixBufSize sendsize + fixBufSize recvsize ≤
      (fixBufSize sendsize + fixBufSize recvsize + 4) % uintRange := by
    have hend' : (xdrrecCreate sendsize recvsize buf).outBase + fixBufSize sendsize + fixBufSize recvsize ≤
        buf + (fixBufSize sendsize + fixBufSize recvsize + 4) % uintRange := hend
    omega
  rw [hsend', hrecv'] at htotal
  unfold uintRange at hsendlt hrecvlt htotal ⊢
  omega

/-- The memory is laid out as it should be, at any address, exactly if the two sizes and a word are together
below `2 ^ 32` when they are rounded up without a limit. -/
theorem xdrrecCreate_sound_iff (hsend : sendsize < uintRange) (hrecv : recvsize < uintRange) (buf : Nat) :
    (xdrrecCreate sendsize recvsize buf).Sound ↔ rounded sendsize + rounded recvsize + 4 < uintRange :=
  ⟨fits_of_sound hsend hrecv, sound_of_fits buf⟩

theorem xdrrecCreate_sound_odd : (xdrrecCreate 0 8193 0x1003).Sound :=
  (xdrrecCreate_sound_iff (by decide) (by decide) 0x1003).mpr (by decide)

/-- Two sizes of two gigabytes make a block of four bytes. -/
theorem xdrrecCreate_sound_counterexample :
    ¬ ∀ sendsize recvsize buf, sendsize < uintRange → recvsize < uintRange →
      (xdrrecCreate sendsize recvsize buf).Sound := by
  intro hall
  have hsound := hall (2 ^ 31) (2 ^ 31) 0x1000 (by decide) (by decide)
  have hend : 0x1000 + 2 ^ 31 ≤ 0x1000 + 4 :=
    ((Set.Ico_subset_Ico_iff (by decide)).mp hsound.outBlock).2
  exact absurd hend (by decide)

/-! ### The streams in the layout -/

/-- Both halves of the stream are set up at the start of their buffers, as in the models of the halves. -/
theorem create_pointers (sendsize recvsize buf : Nat) (garbage : Nat → Byte) :
    let l := xdrrecCreate sendsize recvsize buf
    l.outFinger = l.outBase + (createOut sendsize garbage).outFinger ∧
      l.outBoundry = l.outBase + (createOut sendsize garbage).outBoundry ∧
      l.fragHeader = l.outBase + (createOut sendsize garbage).fragHeader ∧
      l.inSize = (create (fixBufSize recvsize)).inSize ∧
      l.inBoundry = l.inBase + (create (fixBufSize recvsize)).inBoundry ∧ l.inFinger = l.inBoundry :=
  ⟨rfl, rfl, rfl, rfl, rfl, rfl⟩

/-- In a sound layout the outgoing half never leaves its buffer. -/
theorem Sound.finger_mem {writeit : Writeit} {sendsize recvsize buf : Nat} (garbage : Nat → Byte)
    (h : (xdrrecCreate sendsize recvsize buf).Sound) (hsend : sendsize < uintRange) (hwrites : OutPos.Succeeds writeit)
    {puts : List OutPos.Put} {q : OutPos}
    (hrun : Runs.exec OutPos.step Runs.anyStep (OutPos.create sendsize) (puts.map OutPos.Put.call) = some q) :
    ∃ t, OutPos.runPuts writeit puts (createOut sendsize garbage) = .ok (true, t) ∧
      (xdrrecCreate sendsize recvsize buf).outBase + t.outFinger ≤ (xdrrecCreate sendsize recvsize buf).outBoundry := by
  have hleast : 8 ≤ fixBufSize sendsize := Nat.le_trans (by decide) h.outLeast
  have hsized := OutPos.sized_createOut hsend hleast garbage
  obtain ⟨t, ht, hpos, hsized'⟩ := OutPos.runPuts_follows hwrites hsized hrun
  have hboundry : q.outBoundry = fixBufSize sendsize := by
    have hreached := Runs.reached_of_exec OutPos.step Runs.anyStep Runs.Reached.start _ hrun
    refine hreached.invariant (fun p => p.outBoundry = fixBufSize sendsize) rfl ?_
    intro p call p' hp _ hst
    exact (OutPos.step_outBoundry hst).trans hp
  have htb : t.outBoundry = fixBufSize sendsize := by
    rw [← hboundry, ← hpos]
    rfl
  refine ⟨t, ht, Nat.add_le_add_left ?_ _⟩
  rw [← htb]
  exact hsized'.bounds.2.2.1

end Layout

end XdrRec

end RpcMt
