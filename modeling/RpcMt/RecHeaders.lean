import RpcMt.RecEncode
import RpcMt.Runs

/-! The headers of the fragments that a record stream puts out, for every size of its buffer and for calls of
any length. The pointers alone decide them. A fragment that is sent in the middle of its record has a header
without a bit for the last one, which is zero if the fragment is empty; `set_input_fragment` refuses it. -/

namespace RpcMt

open Runs

namespace XdrRec

/-- The pointers of the outgoing half, as distances from `out_base`, and the headers written so far. -/
structure OutPos where
  outFinger : Nat
  outBoundry : Nat
  fragHeader : Nat
  fragSent : Bool
  headers : List Nat
  deriving DecidableEq, Repr

namespace OutPos

/-- As `xdrrec_create` sets them up. -/
def create (sendsize : Nat) : OutPos := ⟨4, fixBufSize sendsize, 0, false, []⟩

/-- What is stored at `frag_header`: the length of the fragment and the bit of the last one, as 32 bits. -/
def headerWord (eor : Bool) (p : OutPos) : Nat :=
  (p.outFinger - p.fragHeader - 4 ||| if eor then 2 ^ 31 else 0) % uintRange

/-- `flush_out`, where `writeit` returns what it is passed. -/
def flushOut (eor : Bool) (p : OutPos) : OutPos :=
  { p with outFinger := 4, fragHeader := 0, headers := p.headers ++ [p.headerWord eor] }

/-- `xdrrec_putlong` and `xdrrec_putint32`. -/
def putWord (p : OutPos) : OutPos :=
  let p := if p.outBoundry < p.outFinger + 4 then flushOut false { p with fragSent := true } else p
  { p with outFinger := p.outFinger + 4 }

theorem putWord_full (p : OutPos) (h : p.outBoundry < p.outFinger + 4) :
    p.putWord = { flushOut false { p with fragSent := true } with outFinger := 4 + 4 } := by
  unfold putWord
  rw [if_pos h]
  rfl

theorem putWord_fits (p : OutPos) (h : ¬ p.outBoundry < p.outFinger + 4) :
    p.putWord = { p with outFinger := p.outFinger + 4 } := by
  unfold putWord
  rw [if_neg h]

/-- `out_boundry - out_finger`, as `u_int`. -/
def room (p : OutPos) : Nat := (((p.outBoundry : Int) - p.outFinger) % uintRange).toNat

/-- The loop of `xdrrec_putbytes`, with the number of bytes still to be put and a bound on its turns. -/
def putbytesLoop : Nat → Nat → OutPos → Option OutPos
  | 0, _, _ => none
  | turns + 1, len, p =>
      if len = 0 then some p
      else
        let current := min len p.room
        let p := { p with outFinger := p.outFinger + current }
        if p.outFinger = p.outBoundry ∧ len - current ≠ 0 then
          putbytesLoop turns (len - current) (flushOut false { p with fragSent := true })
        else putbytesLoop turns (len - current) p

def putbytes (len : Nat) (p : OutPos) : Option OutPos := putbytesLoop (len + 2) len p

def endofrecord (sendnow : Bool) (p : OutPos) : OutPos :=
  if sendnow || p.fragSent || decide (p.outBoundry ≤ p.outFinger + 4) then
    flushOut true { p with fragSent := false }
  else
    { p with
      headers := p.headers ++ [p.headerWord true]
      fragHeader := p.outFinger
      outFinger := p.outFinger + 4 }

theorem endofrecord_send {sendnow : Bool} (p : OutPos)
    (h : (sendnow || p.fragSent || decide (p.outBoundry ≤ p.outFinger + 4)) = true) :
    p.endofrecord sendnow = flushOut true { p with fragSent := false } := if_pos h

theorem endofrecord_batch {sendnow : Bool} (p : OutPos)
    (h : ¬ (sendnow || p.fragSent || decide (p.outBoundry ≤ p.outFinger + 4)) = true) :
    p.endofrecord sendnow =
      { p with
        headers := p.headers ++ [p.headerWord true]
        fragHeader := p.outFinger
        outFinger := p.outFinger + 4 } := if_neg h

inductive Call where
  | putlong
  | putint32
  | putbytes (len : Nat)
  | endofrecord (sendnow : Bool)
  deriving DecidableEq, Repr

/-- A call; there is no state after a loop that does not end. -/
def step (p : OutPos) : Call → Option OutPos
  | .putlong | .putint32 => some p.putWord
  | .putbytes len => p.putbytes len
  | .endofrecord sendnow => some (p.endofrecord sendnow)

/-- The size of the buffer is never changed. -/
theorem step_outBoundry {p q : OutPos} {call : Call} (h : step p call = some q) : q.outBoundry = p.outBoundry := by
  have hword : p.putWord.outBoundry = p.outBoundry := by
    unfold putWord
    split <;> rfl
  cases call with
  | putlong | putint32 =>
      cases h
      exact hword
  | putbytes len =>
      have hloop : ∀ turns len (p : OutPos), putbytesLoop turns len p = some q → q.outBoundry = p.outBoundry := by
        intro turns
        induction turns with
        | zero => exact fun _ _ => nofun
        | succ turns ih =>
            intro len p hrun
            rw [putbytesLoop] at hrun
            split at hrun
            · cases hrun
              rfl
            · dsimp only at hrun
              split at hrun
              · have hnext := ih _ _ hrun
                exact hnext
              · have hnext := ih _ _ hrun
                exact hnext
      exact hloop _ _ p h
  | endofrecord sendnow =>
      cases h
      unfold endofrecord
      split <;> rfl

/-- A word that does not fit comes behind a fragment with bytes in it. -/
def Filled (p : OutPos) : Call → Prop
  | .putlong | .putint32 => p.outBoundry < p.outFinger + 4 → p.outFinger ≠ p.fragHeader + 4
  | _ => True

instance (p : OutPos) (call : Call) : Decidable (p.Filled call) := by
  cases call with
  | putlong => exact inferInstanceAs (Decidable (_ → _))
  | putint32 => exact inferInstanceAs (Decidable (_ → _))
  | _ => exact inferInstanceAs (Decidable True)

/-! ### Where the pointers are -/

/-- A buffer with room for a word behind its header, which no pointer leaves; or, where the size has wrapped
around, one of no bytes, and a finger that does not pass the end of `u_int`. -/
structure Inv (p : OutPos) : Prop where
  started : p.fragHeader + 4 ≤ p.outFinger
  bounds : p.fragHeader + 4 < p.outBoundry ∧ 8 ≤ p.outBoundry ∧ p.outBoundry < uintRange ∧
      p.outFinger ≤ p.outBoundry ∨
    p.outBoundry = 0 ∧ p.fragHeader = 0 ∧ p.outFinger ≤ uintRange

theorem fixBufSize_cases {s : Nat} (h : s < uintRange) :
    fixBufSize s = 0 ∨ 8 ≤ fixBufSize s ∧ fixBufSize s < uintRange := by
  unfold fixBufSize
  unfold uintRange at h ⊢
  dsimp only
  split <;> omega

theorem inv_create {sendsize : Nat} (h : sendsize < uintRange) : (create sendsize).Inv where
  started := Nat.le_refl 4
  bounds := by
    obtain hzero | ⟨hleast, hmost⟩ := fixBufSize_cases h
    · exact Or.inr ⟨hzero, rfl, (by decide : 4 ≤ uintRange)⟩
    · exact Or.inl ⟨Nat.lt_of_lt_of_le (by decide : 0 + 4 < 8) hleast, hleast, hmost,
        Nat.le_trans (by decide : 4 ≤ 8) hleast⟩

theorem room_of_le {p : OutPos} (hle : p.outFinger ≤ p.outBoundry) (hlt : p.outBoundry < uintRange) :
    p.room = p.outBoundry - p.outFinger := by
  unfold room
  unfold uintRange at hlt ⊢
  omega

/-- Behind a buffer of no bytes the room is what is left of `u_int`. -/
theorem room_of_zero {p : OutPos} (hzero : p.outBoundry = 0) (hstarted : 0 < p.outFinger)
    (hle : p.outFinger ≤ uintRange) : p.outFinger + p.room = uintRange := by
  unfold room
  rw [hzero]
  unfold uintRange at hle ⊢
  omega

namespace Inv

variable {p : OutPos} (h : p.Inv)

include h

/-- A buffer with nothing but a header in it. -/
theorem flushed {q : OutPos} (hboundry : q.outBoundry = p.outBoundry) (hheader : q.fragHeader = 0)
    (hstarted : 4 ≤ q.outFinger) (hfinger : q.outFinger ≤ 8) : q.Inv where
  started := by
    rw [hheader]
    exact hstarted
  bounds := by
    rw [hboundry, hheader]
    obtain ⟨_, hleast, hmost, _⟩ | ⟨hzero, _, _⟩ := h.bounds
    · exact Or.inl ⟨Nat.lt_of_lt_of_le (by decide) hleast, hleast, hmost, Nat.le_trans hfinger hleast⟩
    · exact Or.inr ⟨hzero, rfl, Nat.le_trans hfinger (by decide)⟩

theorem flushOut (eor b : Bool) : Inv (OutPos.flushOut eor { p with fragSent := b }) :=
  h.flushed rfl rfl (Nat.le_refl 4) (by decide : 4 ≤ 8)

theorem putWord : p.putWord.Inv := by
  unfold OutPos.putWord
  dsimp only
  split
  · exact h.flushed rfl rfl (Nat.le_add_right 4 4) (Nat.le_refl 8)
  · rename_i hfits
    refine ⟨Nat.le_add_right_of_le h.started, ?_⟩
    obtain ⟨hroom, hleast, hmost, _⟩ | ⟨hzero, _, _⟩ := h.bounds
    · exact Or.inl ⟨hroom, hleast, hmost, Nat.not_lt.mp hfits⟩
    · exact absurd (hzero ▸ Nat.succ_pos _) hfits

/-- The bytes of one turn of `xdrrec_putbytes`. -/
theorem advance (len : Nat) : Inv { p with outFinger := p.outFinger + min len p.room } := by
  refine ⟨Nat.le_add_right_of_le h.started, ?_⟩
  have hle : p.outFinger + min len p.room ≤ p.outFinger + p.room := Nat.add_le_add_left (Nat.min_le_right ..) _
  obtain ⟨hroom, hleast, hmost, hfinger⟩ | ⟨hzero, hheader, hfinger⟩ := h.bounds
  · have hend : p.outFinger + p.room = p.outBoundry := by
      rw [room_of_le hfinger hmost, Nat.add_sub_cancel' hfinger]
    exact Or.inl ⟨hroom, hleast, hmost, hend ▸ hle⟩
  · have hend : p.outFinger + p.room = uintRange :=
      room_of_zero hzero (Nat.lt_of_lt_of_le (Nat.succ_pos _) h.started) hfinger
    exact Or.inr ⟨hzero, hheader, hend ▸ hle⟩

theorem putbytesLoop {turns len : Nat} {q : OutPos} (hrun : OutPos.putbytesLoop turns len p = some q) : q.Inv := by
  induction turns generalizing p len with
  | zero => cases hrun
  | succ turns ih =>
      rw [OutPos.putbytesLoop] at hrun
      split at hrun
      · cases hrun
        exact h
      · dsimp only at hrun
        split at hrun
        · exact ih ((h.advance len).flushOut false true) hrun
        · exact ih (h.advance len) hrun

theorem endofrecord (sendnow : Bool) : (p.endofrecord sendnow).Inv := by
  unfold OutPos.endofrecord
  split
  · exact h.flushOut true false
  · rename_i hbatch
    simp only [Bool.or_eq_true, decide_eq_true_eq, not_or, Nat.not_le] at hbatch
    refine ⟨Nat.le_refl _, ?_⟩
    obtain ⟨_, hleast, hmost, _⟩ | ⟨hzero, _, _⟩ := h.bounds
    · exact Or.inl ⟨hbatch.2, hleast, hmost, Nat.le_of_lt hbatch.2⟩
    · exact absurd (hzero ▸ hbatch.2) (Nat.not_lt_zero _)

/-- The header of a fragment in the middle of its record is zero exactly if the fragment is empty. -/
theorem headerWord_false : p.headerWord false = 0 ↔ p.outFinger = p.fragHeader + 4 := by
  have hlt : p.outFinger - p.fragHeader - 4 < uintRange := by
    obtain ⟨_, _, hmost, hfinger⟩ | ⟨_, _, hfinger⟩ := h.bounds
    · omega
    · have hstarted := h.started
      have hpos : 0 < uintRange := by decide
      omega
  have hword : p.headerWord false = p.outFinger - p.fragHeader - 4 := by
    show (p.outFinger - p.fragHeader - 4 ||| 0) % uintRange = _
    rw [Nat.or_zero, Nat.mod_eq_of_lt hlt]
  have hstarted := h.started
  rw [hword]
  omega

end Inv

theorem Inv.step {p q : OutPos} (h : p.Inv) {call : Call} (hst : step p call = some q) : q.Inv := by
  cases call with
  | putlong | putint32 =>
      cases hst
      exact h.putWord
  | putbytes len => exact h.putbytesLoop hst
  | endofrecord sendnow =>
      cases hst
      exact h.endofrecord sendnow

theorem headerWord_true (p : OutPos) : p.headerWord true ≠ 0 := by
  have hword : p.headerWord true = (p.outFinger - p.fragHeader - 4) % 2 ^ 32 ||| 2 ^ 31 := by
    show (p.outFinger - p.fragHeader - 4 ||| 2 ^ 31) % 2 ^ 32 = _
    rw [Nat.or_mod_two_pow, Nat.mod_eq_of_lt (by decide : 2 ^ 31 < 2 ^ 32)]
  rw [hword]
  exact Nat.ne_of_gt (Nat.lt_of_lt_of_le (by decide) Nat.right_le_or)

/-! ### Empty fragments -/

theorem headers_putWord (p : OutPos) : p.putWord.headers =
    p.headers ++ if p.outBoundry < p.outFinger + 4 then [p.headerWord false] else [] := by
  unfold putWord
  dsimp only
  split
  · rfl
  · exact (List.append_nil _).symm

/-- A fragment that is sent because the bytes fill the buffer is not empty. -/
theorem putbytesLoop_headers {turns len : Nat} {p q : OutPos} (h : p.Inv)
    (hrun : putbytesLoop turns len p = some q) : 0 ∈ q.headers ↔ 0 ∈ p.headers := by
  induction turns generalizing p len with
  | zero => cases hrun
  | succ turns ih =>
      rw [putbytesLoop] at hrun
      split at hrun
      · cases hrun
        rfl
      · dsimp only at hrun
        have hadv := h.advance len
        split at hrun
        · rename_i hfull
          have hne : headerWord false { p with outFinger := p.outFinger + min len p.room, fragSent := true } ≠ 0 := by
            intro hword
            have hempty := hadv.headerWord_false.mp hword
            dsimp only at hempty
            obtain ⟨hroom, _⟩ | ⟨hzero, _⟩ := h.bounds
            · omega
            · have hstarted := h.started
              omega
          refine (ih (hadv.flushOut false true) hrun).trans ?_
          show 0 ∈ p.headers ++ [_] ↔ _
          rw [List.mem_append, List.mem_singleton]
          exact or_iff_left hne.symm
        · refine (ih hadv hrun).trans ?_
          rfl

theorem step_headers {p q : OutPos} (h : p.Inv) {call : Call} (hst : step p call = some q) :
    0 ∈ q.headers ↔ 0 ∈ p.headers ∨ ¬ p.Filled call := by
  have hword : 0 ∈ p.putWord.headers ↔
      0 ∈ p.headers ∨ ¬ (p.outBoundry < p.outFinger + 4 → p.outFinger ≠ p.fragHeader + 4) := by
    rw [headers_putWord, List.mem_append]
    split
    · rename_i hfull
      rw [List.mem_singleton, eq_comm, h.headerWord_false]
      simp [hfull]
    · rename_i hfits
      simp [hfits]
  cases call with
  | putlong | putint32 =>
      cases hst
      exact hword
  | putbytes len =>
      refine (putbytesLoop_headers h hst).trans ?_
      exact (or_iff_left (not_not_intro trivial)).symm
  | endofrecord sendnow =>
      cases hst
      have hlast : ∀ r : OutPos, 0 ∈ p.headers ++ [r.headerWord true] ↔ 0 ∈ p.headers := by
        intro r
        rw [List.mem_append, List.mem_singleton]
        exact or_iff_left (headerWord_true r).symm
      refine Iff.trans ?_ (or_iff_left (not_not_intro trivial)).symm
      unfold endofrecord
      split
      · exact hlast _
      · exact hlast _

/-- No header is zero exactly if no word that does not fit finds the fragment under way empty. -/
theorem headers_ne_zero_iff {sendsize : Nat} (hsize : sendsize < uintRange) {calls : List Call} {p : OutPos}
    (h : exec step anyStep (create sendsize) calls = some p) :
    0 ∉ p.headers ↔ exec step (fun p call => anyStep p call ∧ p.Filled call) (create sendsize) calls = some p := by
  have hgood : ∀ p call q, Inv p ∧ 0 ∉ p.headers → anyStep p call → Filled p call → step p call = some q →
      Inv q ∧ 0 ∉ q.headers := by
    rintro p call q ⟨hinv, hclean⟩ _ hfilled hst
    refine ⟨hinv.step hst, ?_⟩
    rw [step_headers hinv hst]
    exact not_or_intro hclean (not_not_intro hfilled)
  have hbad : ∀ p call q, Inv p ∧ 0 ∉ p.headers → anyStep p call → ¬ Filled p call → step p call = some q →
      Inv q ∧ 0 ∈ q.headers := by
    rintro p call q ⟨hinv, _⟩ _ hfilled hst
    exact ⟨hinv.step hst, (step_headers hinv hst).mpr (Or.inr hfilled)⟩
  have hkeep : ∀ p call q, Inv p ∧ 0 ∈ p.headers → anyStep p call → step p call = some q →
      Inv q ∧ 0 ∈ q.headers := by
    rintro p call q ⟨hinv, hzero⟩ _ hst
    exact ⟨hinv.step hst, (step_headers hinv hst).mpr (Or.inl hzero)⟩
  obtain ⟨⟨_, hclean⟩, hexec⟩ | ⟨⟨_, hzero⟩, hexec⟩ :=
    exec_clean_or_spoiled step anyStep Filled hgood hbad hkeep ⟨inv_create hsize, List.not_mem_nil⟩ calls h
  · exact iff_of_true hclean hexec
  · refine iff_of_false (not_not_intro hzero) ?_
    rw [hexec]
    exact nofun

theorem headers_ne_zero_batched : 0 ∉ (⟨100, 100, 92, false, [2 ^ 31 + 88]⟩ : OutPos).headers := by
  have hrun : exec step anyStep (create 100) [.putbytes 88, .endofrecord false, .putlong] =
      some ⟨100, 100, 92, false, [2 ^ 31 + 88]⟩ := by decide
  exact (headers_ne_zero_iff (by decide) hrun).mpr (by decide)

/-- A record of 89 bytes is batched, three bytes before the end of the buffer a header is begun, and a word
does not fit behind it. -/
theorem headers_ne_zero_counterexample :
    ¬ ∀ sendsize calls p, sendsize < uintRange → exec step anyStep (create sendsize) calls = some p →
      0 ∉ p.headers := by
  intro hall
  have hrun : exec step anyStep (create 100) [.putbytes 89, .endofrecord false, .putlong] =
      some ⟨8, 100, 0, true, [2 ^ 31 + 89, 0]⟩ := by decide
  exact hall _ _ _ (by decide) hrun (by decide)

/-! ### The bytes behind the pointers -/

/-- The loop ends, unless the buffer has no bytes. -/
theorem putbytesLoop_isSome {p : OutPos} (h : p.Inv) (hleast : 8 ≤ p.outBoundry) {turns len : Nat}
    (hturns : len + (if p.outFinger = p.outBoundry ∧ len ≠ 0 then 2 else 1) ≤ turns) :
    (putbytesLoop turns len p).isSome = true := by
  induction turns generalizing p len with
  | zero => split at hturns <;> omega
  | succ turns ih =>
      have hadv := h.advance len
      obtain ⟨hheader, _, hmost, hfinger⟩ | ⟨hzero, _⟩ := h.bounds
      · have hroom := room_of_le hfinger hmost
        rw [putbytesLoop]
        split
        · rfl
        · -- a turn without progress is one at the end of the buffer, and is followed by a flush
          have hprogress : len - min len p.room + 1 ≤ turns := by
            split at hturns <;> omega
          dsimp only
          split
          · have hne : ¬ (4 = p.outBoundry ∧ len - min len p.room ≠ 0) := by omega
            refine ih (hadv.flushOut false true) hleast ?_
            show len - min len p.room + (if 4 = p.outBoundry ∧ len - min len p.room ≠ 0 then 2 else 1) ≤ turns
            rw [if_neg hne]
            exact hprogress
          · rename_i hpartial
            refine ih hadv hleast ?_
            rw [if_neg hpartial]
            exact hprogress
      · omega

theorem putbytes_isSome {p : OutPos} (h : p.Inv) (hleast : 8 ≤ p.outBoundry) (len : Nat) :
    (p.putbytes len).isSome = true := by
  refine putbytesLoop_isSome h hleast ?_
  split
  · exact Nat.le_refl _
  · exact Nat.le_succ _

/-- The pointers of a stream, with headers that have been written. -/
def ofStream (s : OutStream) (headers : List Nat) : OutPos :=
  ⟨s.outFinger, s.outBoundry, s.fragHeader, s.fragSent, headers⟩

/-- A stream whose buffer has the size that its pointers are about. -/
structure Sized (s : OutStream) (headers : List Nat) : Prop where
  size : s.buf.length = s.outBoundry
  least : 8 ≤ s.outBoundry
  inv : (ofStream s headers).Inv

/-- Every call of `writeit` returns the number of bytes it is passed, as `int`. -/
def Succeeds (writeit : Writeit) : Prop := ∀ written bytes, writeit written bytes = castInt 32 bytes.length

theorem htonl_mod (n : Nat) : htonl (n % uintRange) = htonl n := by
  unfold htonl uintRange
  refine congrArg₂ List.cons ?_ (congrArg₂ List.cons ?_ (congrArg₂ List.cons ?_ (congrArg₂ List.cons ?_ rfl)))
  all_goals
    apply BitVec.eq_of_toNat_eq
    simp only [BitVec.toNat_ofNat]
    omega

section Stream

variable {writeit : Writeit} {s : OutStream} {headers : List Nat}

theorem Sized.store (h : Sized s headers) {pos : Nat} (bs : List Byte) (hroom : pos + bs.length ≤ s.outBoundry) :
    XdrRec.store pos bs s = .ok { s with buf := overwrite s.buf pos bs } ∧
      (overwrite s.buf pos bs).length = s.outBoundry := by
  have hle : pos + bs.length ≤ s.buf.length := by
    rw [h.size]
    exact hroom
  exact ⟨store_eq hle rfl, (length_overwrite hle).trans h.size⟩

theorem Sized.bounds (h : Sized s headers) :
    s.fragHeader + 4 < s.outBoundry ∧ s.fragHeader + 4 ≤ s.outFinger ∧ s.outFinger ≤ s.outBoundry ∧
      s.outBoundry < uintRange := by
  have hleast := h.least
  obtain ⟨hroom, _, hmost, hfinger⟩ | ⟨hzero, _⟩ := h.inv.bounds
  · exact ⟨hroom, h.inv.started, hfinger, hmost⟩
  · have hzero' : s.outBoundry = 0 := hzero
    omega

/-- `flush_out` passes the header of the fragment to `writeit`, where the fragment begins. -/
theorem flushOut_follows (hwrites : Succeeds writeit) (h : Sized s headers) (eor : Bool) :
    ∃ t bytes, XdrRec.flushOut writeit eor s = .ok (true, t) ∧ t.written = s.written ++ [bytes] ∧
      (bytes.drop s.fragHeader).take 4 = htonl ((ofStream s headers).headerWord eor) ∧
      ofStream t ((ofStream s headers).flushOut eor).headers = (ofStream s headers).flushOut eor ∧
      Sized t ((ofStream s headers).flushOut eor).headers := by
  obtain ⟨hroom, hstarted, hfinger, hmost⟩ := h.bounds
  have hword : htonl (s.outFinger - s.fragHeader - 4 ||| if eor then 2 ^ 31 else 0) =
      htonl ((ofStream s headers).headerWord eor) := (htonl_mod _).symm
  generalize htonl ((ofStream s headers).headerWord eor) = word at hword
  have hfour : word.length = 4 := by
    rw [← hword]
    rfl
  have hin : s.fragHeader + word.length ≤ s.outBoundry := by
    rw [hfour]
    exact Nat.le_of_lt hroom
  obtain ⟨hstore, hsize⟩ := h.store word hin
  have hlen : ((overwrite s.buf s.fragHeader word).take s.outFinger).length = s.outFinger := by
    rw [List.length_take, hsize]
    exact Nat.min_eq_left hfinger
  have hanswer : writeit s.written ((overwrite s.buf s.fragHeader word).take s.outFinger) =
      castInt 32 s.outFinger := by
    rw [hwrites, hlen]
  have hhead : (((overwrite s.buf s.fragHeader word).take s.outFinger).drop s.fragHeader).take 4 = word := by
    have htake := take_overwrite (h.size.symm ▸ hin : s.fragHeader + word.length ≤ s.buf.length)
    have hbefore : (s.buf.take s.fragHeader).length = s.fragHeader := by
      rw [List.length_take, h.size]
      omega
    rw [List.take_drop, List.take_take, Nat.min_eq_left hstarted, ← hfour, htake]
    exact List.drop_left' hbefore
  let bytes := (overwrite s.buf s.fragHeader word).take s.outFinger
  let t : OutStream :=
    { s with
      buf := overwrite s.buf s.fragHeader word
      written := s.written ++ [bytes]
      fragHeader := 0
      outFinger := 4 }
  refine ⟨t, bytes, ?_, rfl, hhead, rfl, hsize, h.least, h.inv.flushOut eor s.fragSent⟩
  unfold XdrRec.flushOut
  dsimp only
  rw [hword, hstore]
  show (if writeit s.written bytes ≠ castInt 32 s.outFinger then _ else _) = _
  rw [if_neg (not_not_intro hanswer)]
  rfl

theorem Sized.setFragSent (h : Sized s headers) (b : Bool) : Sized { s with fragSent := b } headers :=
  ⟨h.size, h.least, h.inv.started, h.inv.bounds⟩

/-- A stream follows the pointers: they are where a call of the model takes them. -/
def Follows (r : Res (Bool × OutStream)) (p : OutPos) : Prop :=
  ∃ t, r = .ok (true, t) ∧ ofStream t p.headers = p ∧ Sized t p.headers

theorem putAtFinger_follows (h : Sized s headers) {bs : List Byte} (hbs : bs.length = 4)
    (hfits : s.outFinger + 4 ≤ s.outBoundry) :
    Follows (putAtFinger bs s) { ofStream s headers with outFinger := s.outFinger + 4 } := by
  obtain ⟨hstore, hsize⟩ := h.store bs (hbs.symm ▸ hfits : s.outFinger + bs.length ≤ s.outBoundry)
  obtain ⟨hroom, hstarted, _, hmost⟩ := h.bounds
  refine ⟨{ s with buf := overwrite s.buf s.outFinger bs, outFinger := s.outFinger + 4 }, ?_, rfl, hsize, h.least,
    Nat.le_add_right_of_le hstarted, Or.inl ⟨hroom, h.least, hmost, hfits⟩⟩
  unfold putAtFinger
  rw [hstore]
  rfl

theorem putWord_follows (hwrites : Succeeds writeit) (h : Sized s headers) {bs : List Byte} (hbs : bs.length = 4) :
    Follows (XdrRec.putWord writeit bs s) (ofStream s headers).putWord := by
  unfold XdrRec.putWord
  by_cases hfull : s.outBoundry < s.outFinger + 4
  · obtain ⟨t, _, hflush, _, _, hpos, hsized⟩ := flushOut_follows hwrites (h.setFragSent true) false
    have hfits : t.outFinger + 4 ≤ t.outBoundry := by
      have hfinger : t.outFinger = 4 := congrArg OutPos.outFinger hpos
      rw [hfinger]
      exact hsized.least
    have hput := putAtFinger_follows hsized hbs hfits
    rw [hpos] at hput
    have hfinger : t.outFinger + 4 = 4 + 4 := congrArg (fun p => p.outFinger + 4) hpos
    rw [if_pos hfull, hflush, (ofStream s headers).putWord_full hfull]
    rw [hfinger] at hput
    exact hput
  · rw [if_neg hfull, (ofStream s headers).putWord_fits hfull]
    exact putAtFinger_follows h hbs (Nat.not_lt.mp hfull)

theorem putbytesLoop_follows (hwrites : Succeeds writeit) {turns : Nat} {addr : List Byte} {q : OutPos}
    (h : Sized s headers) (hrun : putbytesLoop turns addr.length (ofStream s headers) = some q) :
    Follows (XdrRec.putbytesLoop writeit turns addr s) q := by
  induction turns generalizing s headers addr with
  | zero => cases hrun
  | succ turns ih =>
      obtain ⟨hroom, hstarted, hfinger, hmost⟩ := h.bounds
      have hcurrent : (ofStream s headers).room = s.outBoundry - s.outFinger := room_of_le hfinger hmost
      rw [putbytesLoop, hcurrent] at hrun
      rw [XdrRec.putbytesLoop]
      by_cases hnil : addr = []
      · subst hnil
        cases hrun
        exact ⟨s, rfl, rfl, h⟩
      · have hlen : addr.length ≠ 0 := fun hzero => hnil (List.length_eq_zero_iff.mp hzero)
        rw [if_neg hlen] at hrun
        rw [if_neg hnil]
        dsimp only at hrun ⊢
        generalize hcur : min addr.length (s.outBoundry - s.outFinger) = current at hrun ⊢
        have hle : current ≤ addr.length := hcur ▸ Nat.min_le_left ..
        have htake : (addr.take current).length = current := List.length_take_of_le hle
        have hin : s.outFinger + (addr.take current).length ≤ s.outBoundry := by
          rw [htake]
          omega
        obtain ⟨hstore, hsize⟩ := h.store (addr.take current) hin
        have hadv : Sized { s with buf := overwrite s.buf s.outFinger (addr.take current), outFinger := s.outFinger + current }
            headers := by
          refine ⟨hsize, h.least, Nat.le_add_right_of_le hstarted, Or.inl ⟨hroom, h.least, hmost, ?_⟩⟩
          rw [htake] at hin
          exact hin
        have hdrop : (addr.drop current).length = addr.length - current := List.length_drop
        have hrest : (s.outFinger + current = s.outBoundry ∧ addr.drop current ≠ []) ↔
            (s.outFinger + current = s.outBoundry ∧ addr.length - current ≠ 0) := by
          rw [ne_eq, ← List.length_eq_zero_iff, hdrop]
        rw [hstore]
        show Follows (if s.outFinger + current = s.outBoundry ∧ addr.drop current ≠ [] then _ else _) q
        by_cases hfull : s.outFinger + current = s.outBoundry ∧ addr.length - current ≠ 0
        · rw [if_pos (hrest.mpr hfull)]
          obtain ⟨t, _, hflush, _, _, hpos, hsized⟩ := flushOut_follows hwrites (hadv.setFragSent true) false
          rw [hflush]
          refine ih hsized ?_
          rw [hpos, hdrop, ← hrun]
          exact (if_pos hfull).symm
        · rw [if_neg fun hboth => hfull (hrest.mp hboth)]
          refine ih hadv ?_
          rw [hdrop, ← hrun]
          exact (if_neg hfull).symm

theorem endofrecord_follows (hwrites : Succeeds writeit) (h : Sized s headers) (sendnow : Bool) :
    Follows (xdrrecEndofrecord writeit sendnow s) ((ofStream s headers).endofrecord sendnow) := by
  unfold xdrrecEndofrecord
  by_cases hsend : (sendnow || s.fragSent || decide (s.outBoundry ≤ s.outFinger + 4)) = true
  · obtain ⟨t, _, hflush, _, _, hpos, hsized⟩ := flushOut_follows hwrites (h.setFragSent false) true
    rw [if_pos hsend, hflush, (ofStream s headers).endofrecord_send hsend]
    exact ⟨t, rfl, hpos, hsized⟩
  · have hinv := h.inv.endofrecord sendnow
    rw [if_neg hsend, (ofStream s headers).endofrecord_batch hsend]
    rw [(ofStream s headers).endofrecord_batch hsend] at hinv
    obtain ⟨hroom, _⟩ := h.bounds
    have hin : s.fragHeader + (htonl (s.outFinger - s.fragHeader - 4 ||| 2 ^ 31)).length ≤ s.outBoundry :=
      Nat.le_of_lt hroom
    obtain ⟨hstore, hsize⟩ := h.store _ hin
    dsimp only
    rw [hstore]
    exact ⟨_, rfl, rfl, hsize, h.least, hinv⟩

/-- A call with what is put. -/
inductive Put where
  | putlong (l : Int)
  | putint32 (i : Int)
  | putbytes (bs : List Byte)
  | endofrecord (sendnow : Bool)

def Put.call : Put → Call
  | .putlong _ => .putlong
  | .putint32 _ => .putint32
  | .putbytes bs => .putbytes bs.length
  | .endofrecord sendnow => .endofrecord sendnow

def Put.run (writeit : Writeit) : Put → OutStream → Res (Bool × OutStream)
  | .putlong l => xdrrecPutlong writeit l
  | .putint32 i => xdrrecPutint32 writeit i
  | .putbytes bs => xdrrecPutbytes writeit bs
  | .endofrecord sendnow => xdrrecEndofrecord writeit sendnow

def runPuts (writeit : Writeit) : List Put → OutStream → Res (Bool × OutStream)
  | [], s => .ok (true, s)
  | put :: puts, s => do
      let (_, s) ← put.run writeit s
      runPuts writeit puts s

theorem put_follows (hwrites : Succeeds writeit) (h : Sized s headers) (put : Put) {q : OutPos}
    (hst : step (ofStream s headers) put.call = some q) : Follows (put.run writeit s) q := by
  cases put with
  | putlong l =>
      cases hst
      exact putWord_follows hwrites h rfl
  | putint32 i =>
      cases hst
      exact putWord_follows hwrites h rfl
  | putbytes bs => exact putbytesLoop_follows hwrites h hst
  | endofrecord sendnow =>
      cases hst
      exact endofrecord_follows hwrites h sendnow

/-- With a buffer that has bytes in it the stream goes where the pointers go, over any number of calls. -/
theorem runPuts_follows (hwrites : Succeeds writeit) {puts : List Put} {q : OutPos} (h : Sized s headers)
    (hrun : exec step anyStep (ofStream s headers) (puts.map Put.call) = some q) :
    Follows (runPuts writeit puts s) q := by
  induction puts generalizing s headers with
  | nil =>
      cases hrun
      exact ⟨s, rfl, rfl, h⟩
  | cons put puts ih =>
      obtain ⟨_, p, hst, hrest⟩ := exec_cons step anyStep hrun
      obtain ⟨t, ht, hpos, hsized⟩ := put_follows hwrites h put hst
      rw [runPuts, ht]
      refine ih hsized ?_
      rw [hpos]
      exact hrest

theorem sized_createOut {sendsize : Nat} (hsize : sendsize < uintRange) (hleast : 8 ≤ fixBufSize sendsize)
    (garbage : Nat → Byte) : Sized (createOut sendsize garbage) [] where
  size := by
    show ((List.range (fixBufSize sendsize)).map garbage).length = fixBufSize sendsize
    rw [List.length_map, List.length_range]
  least := hleast
  inv := inv_create hsize

end Stream

/-! ### The decoder -/

/-- `set_input_fragment` refuses the header that is zero, and no other. -/
theorem setInputFragment_header {σ : Type} (readit : Readit σ) {s s' : Stream σ} {word : Nat} (hword : word < 2 ^ 32)
    (h : getInputBytes readit s 4 = some (some (htonl word), s')) :
    ∃ t, setInputFragment readit s = some (decide (word ≠ 0), t) := by
  unfold setInputFragment
  rw [h]
  dsimp only [Option.bind_eq_bind, Option.bind_some]
  rw [ntohl_htonl hword]
  by_cases hzero : word = 0
  · rw [if_pos hzero, decide_eq_false (not_not_intro hzero)]
    exact ⟨_, rfl⟩
  · rw [if_neg hzero, decide_eq_true hzero]
    exact ⟨_, rfl⟩

end OutPos

end XdrRec

end RpcMt
