import RpcMt.RecEncode
import RpcMt.RecReader
import RpcMt.Runs

/-! Positions in a record stream: `xdrrec_getpos` and `xdrrec_setpos` of `xdr_rec.c`. A position is the
offset that `lseek` gives for the handle, moved by what lies in the buffer. Setting one moves the cursor
by the difference to the current one: for a stream that encodes, over the fragment being built; for one
that decodes, over the input buffer, with the count of what is left of the fragment beside it. -/

namespace RpcMt

open Runs

namespace XdrRec

/-- Both halves of a `RECSTREAM`, with the handle. -/
structure RecStrm (σ : Type) where
  out : OutStream
  inn : Stream σ

variable {σ : Type}

/-- `in_finger`, as its distance from `in_base`. -/
def inFinger (s : RecStrm σ) : Int := (s.inn.strm.inBoundry : Int) - s.inn.strm.input.length

/-- `xdrrec_getpos`; `off` is what `lseek` answers. -/
def xdrrecGetpos (failfast : Bool) (xOp : XdrOp) (off : Int) (s : RecStrm σ) : Res Int :=
  if off = -1 then .ok (castUint 32 (-1))
  else match xOp with
    | .encode => .ok (castUint 32 (off + s.out.outFinger))
    | .decode => .ok (castUint 32 (off - s.inn.strm.input.length))
    | .free => xdrAbort failfast (castUint 32 (-1))

/-- The difference of two positions, an `int`. -/
def deltaOf (currpos : Int) (pos : Nat) : Int := castInt 32 (currpos - pos)

/-- `xdrrec_setpos`. `passed` is what the input buffer holds from `in_base` to `in_finger`. -/
def xdrrecSetpos (failfast : Bool) (xOp : XdrOp) (off : Int) (pos : Nat) (passed : List Byte) (s : RecStrm σ) :
    Res (Bool × RecStrm σ) := do
  let currpos ← xdrrecGetpos failfast xOp off s
  let delta := deltaOf currpos pos
  if castInt 32 currpos = -1 then pure (false, s)
  else match xOp with
    | .encode =>
        let newpos := s.out.outFinger - delta
        if s.out.fragHeader < newpos ∧ newpos < s.out.outBoundry then
          pure (true, { s with out.outFinger := newpos.toNat })
        else xdrAbort failfast (false, s)
    | .decode =>
        let newpos := inFinger s - delta
        if delta < castInt 32 s.inn.strm.fbtbc ∧ newpos ≤ s.inn.strm.inBoundry ∧ 0 ≤ newpos then
          pure (true, { s with
            inn.strm.input := (passed ++ s.inn.strm.input).drop newpos.toNat
            inn.strm.fbtbc := (s.inn.strm.fbtbc - delta).toNat })
        else xdrAbort failfast (false, s)
    | .free => xdrAbort failfast (false, s)

/-- `xdrrec_inline` on a stream that decodes. -/
def inlineGet (len : Nat) (s : Stream σ) : Option (List Byte) × Stream σ :=
  if len ≤ s.strm.fbtbc ∧ len ≤ s.strm.input.length then
    (some (s.strm.input.take len),
      { s with strm.input := s.strm.input.drop len, strm.fbtbc := s.strm.fbtbc - len })
  else (none, s)

/-! ### Runs -/

/-- A call of an operation. The turns bound the loops that skip to the end of a record. -/
inductive RecCall where
  | put (call : PutCall)
  | endofrecord (sendnow : Bool)
  | read (call : ReadCall) (turns : Nat)
  | inlineGet (len : Nat)
  | setpos (xOp : XdrOp) (off : Int) (pos : Nat) (passed : List Byte)

/-- A call of `xdrrec_setpos` that has returned. -/
structure Repositioned (σ : Type) where
  xOp : XdrOp
  ok : Bool
  before : RecStrm σ
  after : RecStrm σ

/-- Where the current fragment ends, as a distance from `in_base`. -/
def fragEnd (s : RecStrm σ) : Int := inFinger s + s.inn.strm.fbtbc

/-- The cursor of the encoding half lies behind the header of the fragment and within the buffer. -/
def BehindHeader (s : OutStream) : Prop := s.fragHeader + 4 ≤ s.outFinger ∧ s.outFinger ≤ s.outBoundry

/-- A call that succeeds leaves the output cursor behind the header, and the end of the input fragment
where it was. -/
def Repositioned.Sound (r : Repositioned σ) : Prop :=
  r.ok = true → match r.xOp with
    | .encode => BehindHeader r.after.out
    | .decode => fragEnd r.after = fragEnd r.before
    | .free => True

/-- A stream with the calls of `xdrrec_setpos` on it, newest first. -/
structure RecRun (σ : Type) where
  strm : RecStrm σ
  log : List (Repositioned σ)

/-- A stream that `xdrrec_create` has made. -/
def RecRun.start (sendsize recvsize : Nat) (garbage : Nat → Byte) (handle : σ) : RecRun σ :=
  ⟨⟨createOut sendsize garbage, ⟨create (fixBufSize recvsize), handle⟩⟩, []⟩

section Machine

variable (writeit : Writeit) (readit : Readit σ) (failfast : Bool)

def step (s : RecRun σ) : RecCall → Option (RecRun σ)
  | .put call => (call.run writeit s.strm.out).toOption.map fun r => { s with strm.out := r.2 }
  | .endofrecord sendnow =>
      (xdrrecEndofrecord writeit sendnow s.strm.out).toOption.map fun r => { s with strm.out := r.2 }
  | .read call turns => (call.run readit turns s.strm.inn).map fun r => { s with strm.inn := r.2 }
  | .inlineGet len => some { s with strm.inn := (inlineGet len s.strm.inn).2 }
  | .setpos xOp off pos passed =>
      if (passed.length : Int) ≠ inFinger s.strm then none
      else (xdrrecSetpos failfast xOp off pos passed s.strm).toOption.map fun r =>
        ⟨r.2, ⟨xOp, r.1, s.strm, r.2⟩ :: s.log⟩

end Machine

/-- The position is not inside the header of the fragment being built, or, on a stream that decodes, it is
the current one; or the buffer does not have it and the call is refused. -/
def SettableAt (s : RecStrm σ) (currpos : Int) (pos : Nat) : XdrOp → Prop
  | .encode =>
      let newpos := s.out.outFinger - deltaOf currpos pos
      newpos ≤ s.out.fragHeader ∨ s.out.fragHeader + 4 ≤ newpos ∨ s.out.outBoundry ≤ newpos
  | .decode =>
      let newpos := inFinger s - deltaOf currpos pos
      deltaOf currpos pos = 0 ∨ castInt 32 s.inn.strm.fbtbc ≤ deltaOf currpos pos ∨
        s.inn.strm.inBoundry < newpos ∨ newpos < 0
  | .free => True

def Settable (failfast : Bool) (s : RecRun σ) : RecCall → Prop
  | .setpos xOp off pos _ => ∀ currpos, xdrrecGetpos failfast xOp off s.strm = .ok currpos →
      castInt 32 currpos ≠ -1 → SettableAt s.strm currpos pos xOp
  | _ => True

/-! ### One call -/

section Calls

variable {writeit : Writeit} {readit : Readit σ} {failfast : Bool}

theorem fragEnd_moved {s : RecStrm σ} {passed : List Byte} {delta : Int}
    (hpassed : (passed.length : Int) = inFinger s) (hlo : 0 ≤ inFinger s - delta)
    (hhi : inFinger s - delta ≤ s.inn.strm.inBoundry) (hfbtbc : 0 ≤ s.inn.strm.fbtbc - delta) :
    fragEnd { s with
      inn.strm.input := (passed ++ s.inn.strm.input).drop (inFinger s - delta).toNat
      inn.strm.fbtbc := (s.inn.strm.fbtbc - delta).toNat } = fragEnd s - 2 * delta := by
  simp only [fragEnd, inFinger, List.length_drop, List.length_append] at *
  omega

/-- The count of a call that is accepted stays positive. -/
theorem fbtbc_pos {fbtbc : Nat} {delta : Int} (h : delta < castInt 32 fbtbc) : 0 < fbtbc - delta := by
  unfold castInt at h
  omega

theorem refused {s t : RecStrm σ} {ok : Bool} (h : xdrAbort failfast (false, s) = .ok (ok, t)) :
    ok = false ∧ t = s := by
  unfold xdrAbort at h
  split at h
  · cases h
  · cases h
    exact ⟨rfl, rfl⟩

/-- A call of `xdrrec_setpos` is sound exactly if its position is settable. -/
theorem setpos_sound_iff {s : RecRun σ} {xOp : XdrOp} {off : Int} {pos : Nat} {passed : List Byte} {ok : Bool}
    {t : RecStrm σ} (hpassed : (passed.length : Int) = inFinger s.strm)
    (hrun : xdrrecSetpos failfast xOp off pos passed s.strm = .ok (ok, t)) :
    Repositioned.Sound ⟨xOp, ok, s.strm, t⟩ ↔ Settable failfast s (.setpos xOp off pos passed) := by
  obtain ⟨currpos, hpos, hrun⟩ := bind_ok hrun
  have hcurr : Settable failfast s (.setpos xOp off pos passed) ↔
      (castInt 32 currpos ≠ -1 → SettableAt s.strm currpos pos xOp) := by
    constructor
    · intro h
      exact h currpos hpos
    · intro h c hc
      cases hpos.symm.trans hc
      exact h
  rw [hcurr]
  by_cases hneg : castInt 32 currpos = -1
  · rw [if_pos hneg] at hrun
    cases hrun
    exact iff_of_true nofun fun hne => absurd hneg hne
  rw [if_neg hneg] at hrun
  rw [imp_iff_right hneg]
  cases xOp with
  | encode =>
      dsimp only at hrun
      split at hrun
      · rename_i hguard
        cases hrun
        refine (imp_iff_right rfl).trans ?_
        show (_ ∧ _) ↔ (_ ∨ _ ∨ _)
        dsimp only
        omega
      · rename_i hguard
        obtain ⟨rfl, _⟩ := refused hrun
        refine iff_of_true nofun ?_
        show _ ∨ _ ∨ _
        omega
  | decode =>
      dsimp only at hrun
      split at hrun
      · rename_i hguard
        cases hrun
        have hend := fragEnd_moved hpassed hguard.2.2 hguard.2.1 (Int.le_of_lt (fbtbc_pos hguard.1))
        refine (imp_iff_right rfl).trans ?_
        show fragEnd _ = fragEnd s.strm ↔ (_ ∨ _ ∨ _)
        rw [hend]
        omega
      · rename_i hguard
        obtain ⟨rfl, _⟩ := refused hrun
        refine iff_of_true nofun ?_
        show _ ∨ _ ∨ _
        omega
  | free => exact iff_of_true (fun _ => trivial) trivial

/-! ### The output cursor -/

/-- A buffer with room for a word behind a header, and its cursor. -/
structure Placed (s : OutStream) : Prop where
  behind : BehindHeader s
  least : 8 ≤ s.outBoundry

theorem placed_createOut {sendsize : Nat} (hsize : 8 ≤ fixBufSize sendsize) (garbage : Nat → Byte) :
    Placed (createOut sendsize garbage) where
  behind := ⟨Nat.le_refl 4, Nat.le_trans (Nat.le_add_left 4 4) hsize⟩
  least := hsize

variable {s t : OutStream}

theorem store_ok {pos : Nat} {bs : List Byte} (h : store pos bs s = .ok t) : ∃ buf, t = { s with buf := buf } := by
  unfold store at h
  split at h
  · cases h
  · cases h
    exact ⟨_, rfl⟩

namespace Placed

theorem flushOut {eor ok : Bool} (h : Placed s) (hrun : XdrRec.flushOut writeit eor s = .ok (ok, t)) :
    Placed t ∧ t.outBoundry = s.outBoundry ∧ (ok = true → t.outFinger = 4 ∧ t.fragHeader = 0) := by
  obtain ⟨u, hstore, hrun⟩ := bind_ok hrun
  obtain ⟨buf, rfl⟩ := store_ok hstore
  dsimp only at hrun
  split at hrun
  · cases hrun
    exact ⟨⟨h.behind, h.least⟩, rfl, nofun⟩
  · cases hrun
    exact ⟨⟨⟨Nat.le_refl 4, Nat.le_trans (Nat.le_add_left 4 4) h.least⟩, h.least⟩, rfl, fun _ => ⟨rfl, rfl⟩⟩

theorem putAtFinger {bs : List Byte} {ok : Bool} (h : Placed s) (hroom : s.outFinger + 4 ≤ s.outBoundry)
    (hrun : XdrRec.putAtFinger bs s = .ok (ok, t)) : Placed t := by
  obtain ⟨u, hstore, hrun⟩ := bind_ok hrun
  obtain ⟨buf, rfl⟩ := store_ok hstore
  cases hrun
  exact ⟨⟨Nat.le_add_right_of_le h.behind.1, hroom⟩, h.least⟩

theorem putWord {bs : List Byte} {ok : Bool} (h : Placed s) (hrun : XdrRec.putWord writeit bs s = .ok (ok, t)) :
    Placed t := by
  unfold XdrRec.putWord at hrun
  split at hrun
  · obtain ⟨⟨sent, u⟩, hflush, hrun⟩ := bind_ok hrun
    obtain ⟨hu, hboundry, hsent⟩ := flushOut (s := { s with fragSent := true }) ⟨h.behind, h.least⟩ hflush
    cases sent with
    | false =>
        cases hrun
        exact hu
    | true =>
        have hroom : u.outFinger + 4 ≤ u.outBoundry := by
          rw [(hsent rfl).1]
          exact hu.least
        exact hu.putAtFinger hroom hrun
  · rename_i hroom
    exact h.putAtFinger (Nat.le_of_not_lt hroom) hrun

theorem putbytesLoop {turns : Nat} {addr : List Byte} {ok : Bool} (h : Placed s)
    (hrun : XdrRec.putbytesLoop writeit turns addr s = .ok (ok, t)) : Placed t := by
  induction turns generalizing s addr with
  | zero => cases hrun
  | succ turns ih =>
      unfold XdrRec.putbytesLoop at hrun
      split at hrun
      · cases hrun
        exact h
      · obtain ⟨u, hstore, hrun⟩ := bind_ok hrun
        obtain ⟨buf, rfl⟩ := store_ok hstore
        have hmoved : Placed { s with
            buf := buf
            outFinger := s.outFinger + min addr.length (s.outBoundry - s.outFinger) } := by
          refine ⟨⟨Nat.le_add_right_of_le h.behind.1, ?_⟩, h.least⟩
          have hle := h.behind.2
          show s.outFinger + min addr.length (s.outBoundry - s.outFinger) ≤ s.outBoundry
          omega
        dsimp only at hrun
        split at hrun
        · obtain ⟨⟨sent, u⟩, hflush, hrun⟩ := bind_ok hrun
          obtain ⟨hu, _⟩ := flushOut (s := { s with
            buf := buf
            outFinger := s.outFinger + min addr.length (s.outBoundry - s.outFinger)
            fragSent := true }) ⟨hmoved.behind, hmoved.least⟩ hflush
          cases sent with
          | false =>
              cases hrun
              exact hu
          | true => exact ih hu hrun
        · exact ih hmoved hrun

theorem putCall {call : PutCall} {put : List Byte} (h : Placed s) (hrun : call.run writeit s = .ok (put, t)) :
    Placed t := by
  cases call with
  | putlong l =>
      obtain ⟨⟨ok, u⟩, hput, hrun⟩ := bind_ok hrun
      cases hrun
      exact h.putWord hput
  | putint32 i =>
      obtain ⟨⟨ok, u⟩, hput, hrun⟩ := bind_ok hrun
      cases hrun
      exact h.putWord hput
  | putbytes bs =>
      obtain ⟨⟨ok, u⟩, hput, hrun⟩ := bind_ok hrun
      cases hrun
      exact h.putbytesLoop hput
  | inline bs =>
      simp only [PutCall.run, xdrrecInline] at hrun
      by_cases hroom : s.outFinger + bs.length ≤ s.outBoundry
      · rw [if_pos hroom] at hrun
        obtain ⟨u, hstore, hrun⟩ := bind_ok hrun
        obtain ⟨buf, rfl⟩ := store_ok hstore
        cases hrun
        exact ⟨⟨Nat.le_add_right_of_le h.behind.1, hroom⟩, h.least⟩
      · rw [if_neg hroom] at hrun
        cases hrun
        exact h

theorem endofrecord {sendnow ok : Bool} (h : Placed s)
    (hrun : xdrrecEndofrecord writeit sendnow s = .ok (ok, t)) : Placed t := by
  unfold xdrrecEndofrecord at hrun
  split at hrun
  · exact (flushOut (s := { s with fragSent := false }) ⟨h.behind, h.least⟩ hrun).1
  · rename_i hbatched
    obtain ⟨u, hstore, hrun⟩ := bind_ok hrun
    obtain ⟨buf, rfl⟩ := store_ok hstore
    cases hrun
    simp only [Bool.or_eq_true, decide_eq_true_eq, not_or] at hbatched
    exact ⟨⟨Nat.le_refl _, Nat.le_of_not_le hbatched.2⟩, h.least⟩

theorem setpos {xOp : XdrOp} {off : Int} {pos : Nat} {passed : List Byte} {ok : Bool} {r r' : RecStrm σ}
    (h : Placed r.out) (hrun : xdrrecSetpos failfast xOp off pos passed r = .ok (ok, r'))
    (hsound : Repositioned.Sound ⟨xOp, ok, r, r'⟩) : Placed r'.out := by
  obtain ⟨currpos, _, hrun⟩ := bind_ok hrun
  have hkept (hsame : r' = r) : Placed r'.out := hsame ▸ h
  split at hrun
  · cases hrun
    exact h
  · cases xOp with
    | encode =>
        dsimp only at hrun
        split at hrun
        · cases hrun
          exact ⟨hsound rfl, h.least⟩
        · exact hkept (refused hrun).2
    | decode =>
        dsimp only at hrun
        split at hrun
        · cases hrun
          exact h
        · exact hkept (refused hrun).2
    | free => exact hkept (refused hrun).2

end Placed

/-! ### Runs -/

section Runs

variable {s₀ s t : RecRun σ} {c : RecCall}

theorem setpos_ok {xOp : XdrOp} {off : Int} {pos : Nat} {passed : List Byte}
    (hst : step writeit readit failfast s (.setpos xOp off pos passed) = some t) :
    (passed.length : Int) = inFinger s.strm ∧ ∃ ok r,
      xdrrecSetpos failfast xOp off pos passed s.strm = .ok (ok, r) ∧ t = ⟨r, ⟨xOp, ok, s.strm, r⟩ :: s.log⟩ := by
  unfold step at hst
  dsimp only at hst
  split at hst
  · cases hst
  · rename_i hpassed
    obtain ⟨⟨ok, r⟩, hrun, rfl⟩ := Option.map_eq_some_iff.mp hst
    exact ⟨not_not.mp hpassed, ok, r, toOption_ok hrun, rfl⟩

/-- A step logs a call of `xdrrec_setpos`, or makes another call and logs none. -/
theorem step_log (hst : step writeit readit failfast s c = some t) :
    (∃ r, t.log = r :: s.log ∧ (r.Sound ↔ Settable failfast s c)) ∨ t.log = s.log ∧ Settable failfast s c := by
  cases c with
  | put call =>
      obtain ⟨r, _, rfl⟩ := Option.map_eq_some_iff.mp hst
      exact Or.inr ⟨rfl, trivial⟩
  | endofrecord sendnow =>
      obtain ⟨r, _, rfl⟩ := Option.map_eq_some_iff.mp hst
      exact Or.inr ⟨rfl, trivial⟩
  | read call turns =>
      obtain ⟨r, _, rfl⟩ := Option.map_eq_some_iff.mp hst
      exact Or.inr ⟨rfl, trivial⟩
  | inlineGet len =>
      cases hst
      exact Or.inr ⟨rfl, trivial⟩
  | setpos xOp off pos passed =>
      obtain ⟨hpassed, ok, r, hrun, rfl⟩ := setpos_ok hst
      exact Or.inl ⟨_, rfl, setpos_sound_iff hpassed hrun⟩

theorem step_placed (h : Placed s.strm.out) (hok : Settable failfast s c)
    (hst : step writeit readit failfast s c = some t) : Placed t.strm.out := by
  cases c with
  | put call =>
      obtain ⟨r, hrun, rfl⟩ := Option.map_eq_some_iff.mp hst
      exact h.putCall (toOption_ok hrun)
  | endofrecord sendnow =>
      obtain ⟨r, hrun, rfl⟩ := Option.map_eq_some_iff.mp hst
      exact h.endofrecord (toOption_ok hrun)
  | read call turns =>
      obtain ⟨r, _, rfl⟩ := Option.map_eq_some_iff.mp hst
      exact h
  | inlineGet len =>
      cases hst
      exact h
  | setpos xOp off pos passed =>
      obtain ⟨hpassed, ok, r, hrun, rfl⟩ := setpos_ok hst
      exact h.setpos hrun ((setpos_sound_iff hpassed hrun).mpr hok)

/-- In a run every call of `xdrrec_setpos` is sound exactly if every position that is set is settable. Where
they all are, no fragment under way has a negative length. -/
theorem setpos_sound_runs (writeit : Writeit) (readit : Readit σ) (failfast : Bool) (sendsize recvsize : Nat)
    (garbage : Nat → Byte) (handle : σ) (s : RecRun σ) :
    (Reached (step writeit readit failfast) (Settable failfast) (.start sendsize recvsize garbage handle) s ↔
      Reached (step writeit readit failfast) anyStep (.start sendsize recvsize garbage handle) s ∧
        ∀ r ∈ s.log, r.Sound) ∧
      (8 ≤ fixBufSize sendsize →
        Reached (step writeit readit failfast) (Settable failfast) (.start sendsize recvsize garbage handle) s →
          BehindHeader s.strm.out) := by
  refine ⟨⟨?_, ?_⟩, ?_⟩
  · intro h
    refine ⟨h.mono fun _ _ _ => trivial, ?_⟩
    refine h.invariant (fun s => ∀ r ∈ s.log, r.Sound) nofun ?_
    intro s c t hs hok hst
    rcases step_log hst with ⟨r, hlog, hiff⟩ | ⟨hlog, _⟩
    · rw [hlog]
      exact List.forall_mem_cons.mpr ⟨hiff.mpr hok, hs⟩
    · rw [hlog]
      exact hs
  · rintro ⟨h, hsound⟩
    induction h with
    | start => exact .start
    | next _ _ hst ih =>
        rcases step_log hst with ⟨r, hlog, hiff⟩ | ⟨hlog, hok⟩
        · rw [hlog] at hsound
          obtain ⟨hr, hrest⟩ := List.forall_mem_cons.mp hsound
          exact .next (ih hrest) (hiff.mp hr) hst
        · rw [hlog] at hsound
          exact .next (ih hsound) hok hst
  · intro hsize h
    have hplaced := h.invariant (fun s => Placed s.strm.out) (placed_createOut hsize garbage)
      fun _ _ _ hs hok hst => step_placed hs hok hst
    exact hplaced.behind

end Runs

end Calls

/-- A handle on a file that is read as far as it goes. -/
def fileReads : Readit (List Byte) := fun h n => some (some (h.take n), h.drop n)

/-- A record of one fragment, of three words. -/
def threeWords : List Byte := [128, 0, 0, 12, 1, 2, 3, 4, 5, 6, 7, 8, 9, 10, 11, 12]

/-- Position 1, behind a word that was put, is accepted and lies inside the header. Going back over the
first word of the record moves the end of its fragment from 16 to 8. -/
theorem setpos_sound_counterexample :
    (∃ s : RecRun (List Byte), Reached (step (fun _ bytes => bytes.length) fileReads true) anyStep
        (.start 100 100 (fun _ => 0) []) s ∧
      ∃ r ∈ s.log, r.xOp = .encode ∧ r.ok = true ∧ r.after.out.outFinger = 1 ∧ ¬r.Sound) ∧
    ∃ s : RecRun (List Byte), Reached (step (fun _ bytes => bytes.length) fileReads true) anyStep
        (.start 100 100 (fun _ => 0) threeWords) s ∧
      ∃ r ∈ s.log, r.xOp = .decode ∧ r.ok = true ∧ fragEnd r.before = 16 ∧ fragEnd r.after = 8 ∧ ¬r.Sound := by
  refine ⟨?_, ?_⟩
  · have hrun : (exec (step (fun _ bytes => bytes.length) fileReads true) anyStep
        (.start 100 100 (fun _ => 0) [])
        [.put (.putlong 7), .setpos .encode 0 1 (List.replicate 100 0)]).map
          (fun s => s.log.map fun r => (r.xOp, r.ok, r.after.out.fragHeader, r.after.out.outFinger)) =
        some [(.encode, true, 0, 1)] := by decide +kernel
    obtain ⟨s, hs, hlog⟩ := Option.map_eq_some_iff.mp hrun
    obtain ⟨r, hr, heq⟩ := List.mem_map.mp (hlog ▸ List.mem_singleton_self _)
    simp only [Prod.mk.injEq] at heq
    obtain ⟨hop, hok, hheader, hfinger⟩ := heq
    refine ⟨s, reached_of_exec _ anyStep .start _ hs, r, hr, hop, hok, hfinger, fun hsound => ?_⟩
    have hbehind := hsound hok
    rw [hop] at hbehind
    have hle := hbehind.1
    rw [hheader, hfinger] at hle
    exact absurd hle (by decide)
  · have hrun : (exec (step (fun _ bytes => bytes.length) fileReads true) anyStep
        (.start 100 100 (fun _ => 0) threeWords)
        [.read .skiprecord 9, .read .getlong 9, .setpos .decode 16 4 (threeWords.take 8)]).map
          (fun s => s.log.map fun r => (r.xOp, r.ok, fragEnd r.before, fragEnd r.after)) =
        some [(.decode, true, 16, 8)] := by decide +kernel
    obtain ⟨s, hs, hlog⟩ := Option.map_eq_some_iff.mp hrun
    obtain ⟨r, hr, heq⟩ := List.mem_map.mp (hlog ▸ List.mem_singleton_self _)
    simp only [Prod.mk.injEq] at heq
    obtain ⟨hop, hok, hbefore, hafter⟩ := heq
    refine ⟨s, reached_of_exec _ anyStep .start _ hs, r, hr, hop, hok, hbefore, hafter, fun hsound => ?_⟩
    have hend := hsound hok
    rw [hop] at hend
    exact absurd (hafter.symm.trans (hend.trans hbefore)) (by decide)

/-- Going back over the one word that was put, to the position behind the header. -/
theorem setpos_sound_example :
    ∃ s : RecRun (List Byte), exec (step (fun _ bytes => bytes.length) fileReads true) anyStep
        (.start 100 100 (fun _ => 0) [])
        [.put (.putlong 7), .setpos .encode 0 4 (List.replicate 100 0)] = some s ∧ BehindHeader s.strm.out := by
  have hrun : (exec (step (fun _ bytes => bytes.length) fileReads true) anyStep
      (.start 100 100 (fun _ => 0) [])
      [.put (.putlong 7), .setpos .encode 0 4 (List.replicate 100 0)]).map
        (fun s => s.log.map fun r => (r.xOp, r.after.out.fragHeader, r.after.out.outFinger, r.after.out.outBoundry)) =
      some [(.encode, 0, 4, 100)] := by decide +kernel
  obtain ⟨s, hs, hlog⟩ := Option.map_eq_some_iff.mp hrun
  have hsound : ∀ r ∈ s.log, r.Sound := by
    intro r hr _
    have hmem := hlog ▸ List.mem_map_of_mem hr
    obtain ⟨hop, hheader, hfinger, hboundry⟩ : r.xOp = .encode ∧ _ ∧ _ ∧ _ := by
      simpa only [List.mem_singleton, Prod.mk.injEq] using hmem
    rw [hop]
    show _ ∧ _
    omega
  have hall := setpos_sound_runs (fun _ bytes => bytes.length) fileReads true 100 100 (fun _ => 0) [] s
  have hreached := reached_of_exec _ anyStep .start _ hs
  exact ⟨s, hs, hall.2 (by decide) (hall.1.mpr ⟨hreached, hsound⟩)⟩

end XdrRec

end RpcMt
