import RpcMt.RecRoundTrip

/-! Reading what is in the buffer. Where all that is left of a record has been read into the buffer, reading and
skipping it do not call `readit`, whatever that would do; and where it is all that `readit` is about to supply,
the first byte that is asked for brings it there. -/

namespace RpcMt.XdrRec

open RecMarking

variable {σ : Type} {readit : Readit σ} {s s' : Stream σ} {r : Reader}

/-! ### Without a call of `readit` -/

theorem inputLoop_buffered {turns len : Nat} (hlen : len ≤ s.strm.input.length) (passed : List Byte) :
    inputLoop readit (turns + 2) s len passed =
      some (some (passed ++ s.strm.input.take len), { s with strm := { s.strm with input := s.strm.input.drop len } }) := by
  by_cases hzero : len = 0
  · rw [hzero, List.take_zero, List.append_nil]
    rfl
  · have hne : s.strm.input ≠ [] := by
      intro hnil
      rw [hnil] at hlen
      exact hzero (Nat.le_zero.mp hlen)
    rw [inputLoop, if_neg hzero, if_neg hne, Nat.min_eq_left hlen]
    dsimp only
    rw [Nat.sub_self]
    rfl

theorem getInputBytes_buffered {len : Nat} (hlen : len ≤ s.strm.input.length) :
    getInputBytes readit s len =
      some (some (s.strm.input.take len), { s with strm := { s.strm with input := s.strm.input.drop len } }) := by
  by_cases hzero : len = 0
  · rw [hzero]
    rfl
  · obtain ⟨turns, hturns⟩ : ∃ turns, 2 * len + 1 = turns + 2 := ⟨2 * len - 1, by omega⟩
    rw [getInputBytes, hturns, inputLoop_buffered hlen, List.nil_append]

/-- The handle is the same, and so is the size of the buffer. -/
structure Kept (s s' : Stream σ) : Prop where
  handle : s'.handle = s.handle
  inSize : s'.strm.inSize = s.strm.inSize

theorem Kept.refl (s : Stream σ) : Kept s s := ⟨rfl, rfl⟩

theorem Kept.trans {s s' s'' : Stream σ} (h : Kept s s') (h' : Kept s' s'') : Kept s s'' :=
  ⟨h'.handle.trans h.handle, h'.inSize.trans h.inSize⟩

/-- All that is left is in the buffer. -/
abbrev Buffered (s : Stream σ) (r : Reader) : Prop := Shows (fun _ => []) s r

namespace Buffered

variable (readit) {cur : List Byte} {frags : List Fragment} {later : List (List Fragment)}

theorem rest_eq (h : Buffered s r) : r.rest = s.strm.input := h.rest.trans (List.append_nil _)

theorem take (h : Buffered s r) {len : Nat} {bytes : List Byte} {r' : Reader} (htake : r.take len = (some bytes, r')) :
    ∃ s', getInputBytes readit s len = some (some bytes, s') ∧ Buffered s' r' ∧ Kept s s' := by
  obtain ⟨hlen, rfl, rfl⟩ := Reader.take_some htake
  rw [h.rest_eq] at hlen ⊢
  refine ⟨_, getInputBytes_buffered hlen, ⟨?_, h.fbtbc, h.lastFrag, h.size⟩, ⟨rfl, rfl⟩⟩
  exact (List.append_nil _).symm

theorem header (h : Buffered s r) (hok : r.header.1 = true) :
    ∃ s', setInputFragment readit s = some (true, s') ∧ Buffered s' r.header.2 ∧ Kept s s' := by
  unfold Reader.header at hok ⊢
  cases htake : r.take 4 with
  | mk bytes r' =>
      rw [htake] at hok
      cases bytes with
      | none => cases hok
      | some bytes =>
          obtain ⟨s', hget, hs', hkept⟩ := h.take readit htake
          dsimp only at hok ⊢
          unfold setInputFragment
          rw [hget]
          dsimp only [bind, Option.bind]
          by_cases hzero : ntohl bytes = 0
          · rw [if_pos hzero] at hok
            cases hok
          · rw [if_neg hzero, if_neg hzero]
            exact ⟨_, rfl, ⟨hs'.rest, rfl, rfl, hs'.size⟩, ⟨hkept.handle, hkept.inSize⟩⟩

theorem getbytesLoop {turns len : Nat} (addr : List Byte) (h : Buffered s r) (hamid : Reader.Amid r cur frags later)
    (hpass : Reader.Passable frags) (hturns : getbytesTurns len r ≤ turns) :
    ∃ s', getbytesLoop readit turns s len addr = some ((r.getbytes len).1.map (addr ++ ·), s') ∧
      Buffered s' (r.getbytes len).2 ∧ Kept s s' := by
  induction turns generalizing s r len addr cur frags with
  | zero => exact absurd (getbytesTurns_pos len r) (Nat.not_lt.mpr hturns)
  | succ turns ih =>
      unfold XdrRec.getbytesLoop
      rw [← h.fbtbc, ← h.lastFrag]
      by_cases hzero : len = 0
      · rw [if_pos hzero, Reader.getbytes, if_pos hzero]
        refine ⟨s, ?_, h, .refl s⟩
        show some (some addr, s) = some (some (addr ++ []), s)
        rw [List.append_nil]
      rw [if_neg hzero]
      by_cases hempty : r.fbtbc = 0
      · rw [if_pos hempty]
        cases hlast : r.lastFrag with
        | true =>
            rw [Reader.getbytes, if_neg hzero, if_pos hempty, hlast]
            exact ⟨s, rfl, h, .refl s⟩
        | false =>
            obtain ⟨rfl, f, fs, rfl⟩ := hamid.between hempty hlast
            obtain ⟨hok, hin⟩ := hamid.header
            rw [decide_eq_true (Fragment.header_ne_zero (hpass f List.mem_cons_self))] at hok
            obtain ⟨s', hset, hs', hkept⟩ := h.header readit hok
            have hle := getbytesTurns_header len (Prod.ext hok rfl : r.header = (true, r.header.2))
            rw [getbytesTurns, if_pos hempty, hlast, if_neg Bool.false_ne_true] at hturns
            have hbound : getbytesTurns len r.header.2 ≤ turns := by omega
            have hrest : Reader.Passable fs := fun g hg => hpass g (List.mem_cons_of_mem f hg)
            obtain ⟨s'', hloop, hs'', hkept'⟩ := ih addr hs' hin hrest hbound
            rw [Reader.getbytes_header hzero hempty hlast, if_pos hok, hset]
            exact ⟨s'', hloop, hs'', hkept.trans hkept'⟩
      · obtain ⟨c, hc⟩ : ∃ c, c = min len r.fbtbc := ⟨_, rfl⟩
        have hcle : c ≤ r.fbtbc := by omega
        rw [if_neg hempty, Reader.getbytes_take hzero hempty, ← hc]
        have htake := hamid.take (n := c) (by rw [← hamid.fbtbc]; exact hcle)
        obtain ⟨s', hget, hs', hkept⟩ := h.take readit htake
        have hin := (hamid.taken hcle htake).2
        have hbound : getbytesTurns (len - c) { r with
            rest := cur.drop c ++ (frags.flatMap Fragment.wire ++ later.flatMap fun q => q.flatMap Fragment.wire)
            fbtbc := r.fbtbc - c } ≤ turns := by
          have hle := getbytesTurns_le (len - c) { r with
            rest := cur.drop c ++ (frags.flatMap Fragment.wire ++ later.flatMap fun q => q.flatMap Fragment.wire)
            fbtbc := r.fbtbc - c }
          rw [getbytesTurns, if_neg hempty] at hturns
          omega
        have hleft : Buffered { s' with strm := { s'.strm with fbtbc := s'.strm.fbtbc - c } } { r with
            rest := cur.drop c ++ (frags.flatMap Fragment.wire ++ later.flatMap fun q => q.flatMap Fragment.wire)
            fbtbc := r.fbtbc - c } := by
          refine ⟨hs'.rest, ?_, hs'.lastFrag, hs'.size⟩
          show r.fbtbc - c = s'.strm.fbtbc - c
          rw [← hs'.fbtbc]
        obtain ⟨s'', hloop, hs'', hkept'⟩ := ih (addr ++ cur.take c) hleft hin hpass hbound
        rw [htake]
        refine ⟨s'', ?_, hs'', hkept.trans ⟨hkept'.handle, hkept'.inSize⟩⟩
        dsimp only
        rw [hget]
        dsimp only [bind, Option.bind]
        rw [hloop, Option.map_map]
        refine congrArg (fun f => some (Option.map f _, s'')) ?_
        funext bs
        exact List.append_assoc _ _ _

theorem xdrrecGetbytes (h : Buffered s r) (hamid : Reader.Amid r cur frags later) (hpass : Reader.Passable frags)
    (len : Nat) : ∃ s', xdrrecGetbytes readit s len = some ((r.getbytes len).1, s') ∧
      Buffered s' (r.getbytes len).2 ∧ Kept s s' := by
  obtain ⟨s', hloop, hs', hkept⟩ := Buffered.getbytesLoop readit [] h hamid hpass (getbytesTurns_le len r)
  refine ⟨s', ?_, hs', hkept⟩
  unfold XdrRec.xdrrecGetbytes
  rw [hloop]
  refine congrArg (fun bs => some (bs, s')) ?_
  exact Option.map_id'

theorem getWord (h : Buffered s r) (hamid : Reader.Amid r cur frags later) (hpass : Reader.Passable frags) {α : Type}
    (f : List Byte → α) : ∃ s', getWord readit f s = some ((r.getbytes 4).1.map f, s') ∧
      Buffered s' (r.getbytes 4).2 ∧ Kept s s' := by
  unfold XdrRec.getWord
  by_cases hfast : 4 ≤ s.strm.fbtbc ∧ 4 ≤ s.strm.input.length
  · obtain ⟨hword, hs'⟩ := h.fast hfast
    rw [if_pos hfast, hword]
    exact ⟨_, rfl, hs', ⟨rfl, rfl⟩⟩
  · obtain ⟨s', hget, hs', hkept⟩ := h.xdrrecGetbytes readit hamid hpass 4
    rw [if_neg hfast, hget]
    exact ⟨s', rfl, hs', hkept⟩

/-- A turn of the loop of `xdrrec_skiprecord` that has skipped what is left of a fragment. -/
theorem skipFragments_skipped {turns : Nat} {s₀ : Stream σ} (hmore : 0 < s.strm.fbtbc ∨ s.strm.lastFrag = false)
    (hskip : skipInputBytes readit s s.strm.fbtbc = some (true, s'))
    (hs₀ : s₀ = { s' with strm := { s'.strm with fbtbc := 0 } }) :
    XdrRec.skipFragments readit (turns + 1) s =
      if s₀.strm.lastFrag = true then XdrRec.skipFragments readit turns s₀
      else setInputFragment readit s₀ >>= fun p =>
        if p.1 = true then XdrRec.skipFragments readit turns p.2 else some (false, p.2) := by
  rw [XdrRec.skipFragments, if_pos hmore, hskip, hs₀]
  rfl

/-- To the end of the record. -/
theorem skipFragments {turns : Nat} (h : Buffered s r) (hamid : Reader.Amid r cur frags later)
    (hpass : Reader.Passable frags) (hturns : r.rest.length + 2 ≤ turns) :
    ∃ s' r', skipFragments readit turns s = some (true, s') ∧ Buffered s' r' ∧ Reader.Amid r' [] [] later ∧
      Kept s s' := by
  induction turns generalizing s r cur frags with
  | zero => exact absurd hturns (by omega)
  | succ turns ih =>
      by_cases hmore : 0 < r.fbtbc ∨ r.lastFrag = false
      · have htake := hamid.take (n := r.fbtbc) (Nat.le_of_eq hamid.fbtbc)
        obtain ⟨s', hget, hs', hkept⟩ := h.take readit htake
        have hin := hamid.passed htake
        have hlen := Reader.take_length htake
        have hskip : skipInputBytes readit s r.fbtbc = some (true, s') := by
          show (getInputBytes readit s r.fbtbc >>= fun r => some (r.1.isSome, r.2)) = _
          rw [hget]
          rfl
        obtain ⟨s₀, hs₀⟩ : ∃ s₀ : Stream σ, s₀ = { s' with strm := { s'.strm with fbtbc := 0 } } := ⟨_, rfl⟩
        obtain ⟨r₀, hr₀⟩ : ∃ r₀ : Reader, r₀ = { r with
          rest := cur.drop r.fbtbc ++ (frags.flatMap Fragment.wire ++ later.flatMap fun q => q.flatMap Fragment.wire)
          fbtbc := 0 } := ⟨_, rfl⟩
        have hzero : Buffered s₀ r₀ := by
          rw [hs₀, hr₀]
          exact ⟨hs'.rest, rfl, hs'.lastFrag, hs'.size⟩
        have hkept₀ : Kept s s₀ := by
          rw [hs₀]
          exact ⟨hkept.handle, hkept.inSize⟩
        have hempty₀ : r₀.fbtbc = 0 := by
          rw [hr₀]
        have hlen₀ : r₀.rest.length ≤ r.rest.length := by
          rw [hr₀]
          dsimp only at hlen ⊢
          omega
        rw [← hr₀] at hin
        rw [skipFragments_skipped readit (by rw [← h.fbtbc, ← h.lastFrag]; exact hmore)
          (by rw [← h.fbtbc]; exact hskip) hs₀, ← hzero.lastFrag]
        cases hlast : r₀.lastFrag with
        | true =>
            rw [if_pos rfl]
            obtain ⟨_, rfl⟩ := hin.atEnd hempty₀ hlast
            refine ⟨s₀, r₀, ?_, hzero, hin, hkept₀⟩
            obtain ⟨turns, rfl⟩ : ∃ n, turns = n + 1 := ⟨turns - 1, by omega⟩
            rw [XdrRec.skipFragments, ← hzero.fbtbc, ← hzero.lastFrag, hempty₀, hlast]
            rfl
        | false =>
            rw [if_neg Bool.false_ne_true]
            obtain ⟨_, f, fs, rfl⟩ := hin.between hempty₀ hlast
            obtain ⟨hok, hnext⟩ := hin.header
            rw [decide_eq_true (Fragment.header_ne_zero (hpass f List.mem_cons_self))] at hok
            obtain ⟨s₁, hset, hs₁, hkept₁⟩ := hzero.header readit hok
            have hshort := Reader.header_length (Prod.ext hok rfl : r₀.header = (true, r₀.header.2))
            obtain ⟨s₂, r₂, hrest, hs₂, hend, hkept₂⟩ := ih hs₁ hnext
              (fun g hg => hpass g (List.mem_cons_of_mem f hg)) (by omega)
            rw [hset]
            exact ⟨s₂, r₂, hrest, hs₂, hend, (hkept₀.trans hkept₁).trans hkept₂⟩
      · rw [not_or, Nat.not_lt, Nat.le_zero_eq, Bool.not_eq_false] at hmore
        obtain ⟨rfl, rfl⟩ := hamid.atEnd hmore.1 hmore.2
        rw [XdrRec.skipFragments, ← h.fbtbc, ← h.lastFrag, if_neg (by rw [hmore.1, hmore.2]; decide)]
        exact ⟨s, r, rfl, h, hamid, .refl s⟩

end Buffered

/-! ### With one call of `readit` -/

/-- The stream has these bytes of the record `q` left and `later` behind it, all in the buffer; or nothing of the
record has been read, and the next call of `readit` is to bring all of that. Then it has the handle of `base`. -/
inductive AtHand (readit : Readit σ) (out : OutStream) (base : Stream σ) (q : List Fragment)
    (later : List (List Fragment)) : OutStream × Stream σ → List Byte → Prop where
  | buffered {s : Stream σ} {r : Reader} {cur : List Byte} {frags : List Fragment} (hs : Buffered s r)
      (hamid : Reader.Amid r cur frags later) (hpass : Reader.Passable frags) (hkept : Kept base s) :
      AtHand readit out base q later (out, s) (cur ++ payload frags)
  | coming {s s' : Stream σ} {r : Reader} (hnone : s.strm.input = []) (hfill : fillInputBuf readit s = some (true, s'))
      (hs : Buffered s' r) (hamid : Reader.Amid r [] q later) (hne : q ≠ []) (hpass : Reader.Passable q)
      (hkept : Kept base s') : AtHand readit out base q later (out, s) (payload q)

section AtHand

variable {out : OutStream} {base : Stream σ} {q : List Fragment} {later : List (List Fragment)}
  {x : OutStream × Stream σ} {bs : List Byte}

theorem fillInputBuf_kept {ok : Bool} (hfill : fillInputBuf readit s = some (ok, s')) :
    s'.strm.fbtbc = s.strm.fbtbc ∧ s'.strm.lastFrag = s.strm.lastFrag := by
  obtain ⟨⟨bytes, handle⟩, _, h⟩ := Option.bind_eq_some_iff.mp hfill
  cases bytes with
  | none =>
      cases h
      exact ⟨rfl, rfl⟩
  | some bytes =>
      cases h
      exact ⟨rfl, rfl⟩

/-- Filling the buffer first makes no difference. -/
theorem getInputBytes_fill {len : Nat} (hnone : s.strm.input = []) (hfill : fillInputBuf readit s = some (true, s'))
    (hlen : len ≤ s'.strm.input.length) (hpos : len ≠ 0) : getInputBytes readit s len = getInputBytes readit s' len := by
  obtain ⟨turns, hturns⟩ : ∃ turns, 2 * len + 1 = turns + 2 + 1 := ⟨2 * len - 2, by omega⟩
  rw [getInputBytes_buffered hlen, getInputBytes, hturns, inputLoop, if_neg hpos, if_pos hnone, hfill]
  exact (inputLoop_buffered hlen []).trans rfl

/-- At the beginning of a record the first byte asked for fills the buffer. -/
theorem xdrrecGetbytes_fill {len : Nat} (hnone : s.strm.input = [])
    (hfill : fillInputBuf readit s = some (true, s')) (hempty : s.strm.fbtbc = 0) (hlast : s.strm.lastFrag = false)
    (hword : 4 ≤ s'.strm.input.length) (hpos : len ≠ 0) :
    xdrrecGetbytes readit s len = xdrrecGetbytes readit s' len := by
  obtain ⟨hfb, hlf⟩ := fillInputBuf_kept hfill
  have hset : setInputFragment readit s = setInputFragment readit s' := by
    unfold setInputFragment
    rw [getInputBytes_fill hnone hfill hword (by decide)]
  unfold xdrrecGetbytes
  rw [getbytesLoop, getbytesLoop, if_neg hpos, if_neg hpos, hfb, hlf, if_pos hempty, if_pos hempty, hlast, hset,
    if_neg Bool.false_ne_true, if_neg Bool.false_ne_true]

theorem getWord_fill {α : Type} (f : List Byte → α) (hnone : s.strm.input = [])
    (hfill : fillInputBuf readit s = some (true, s')) (hempty : s.strm.fbtbc = 0) (hlast : s.strm.lastFrag = false)
    (hword : 4 ≤ s'.strm.input.length) : getWord readit f s = getWord readit f s' := by
  have hslow : ¬ (4 ≤ s.strm.fbtbc ∧ 4 ≤ s.strm.input.length) := by
    rw [hempty]
    omega
  have hslow' : ¬ (4 ≤ s'.strm.fbtbc ∧ 4 ≤ s'.strm.input.length) := by
    rw [(fillInputBuf_kept hfill).1, hempty]
    omega
  rw [getWord, getWord, if_neg hslow, if_neg hslow', xdrrecGetbytes_fill hnone hfill hempty hlast hword (by decide)]

theorem AtHand.reads (h : AtHand readit out base q later x bs) {α : Type} (len : Nat) (f : List Byte → α)
    (read : Stream σ → Option (Option α × Stream σ))
    (hread : ∀ {s r cur frags}, Buffered s r → Reader.Amid r cur frags later → Reader.Passable frags →
      ∃ s', read s = some ((r.getbytes len).1.map f, s') ∧ Buffered s' (r.getbytes len).2 ∧ Kept s s')
    (hzero : len = 0 → ∀ s, read s = some (some (f []), s))
    (hfill : ∀ {s s'}, s.strm.input = [] → fillInputBuf readit s = some (true, s') → s.strm.fbtbc = 0 →
      s.strm.lastFrag = false → 4 ≤ s'.strm.input.length → len ≠ 0 → read s = read s') :
    ResRel (Upto Option.isSome (stage (AtHand readit out base q later) fun y _ => ∃ cs, AtHand readit out base q later y cs))
      (onIn x.1 (read x.2)) (do let (word, rest) ← takeBytes false len bs; pure (word.map f, rest)) := by
  have hin : ∀ {s r cur frags}, Buffered s r → Reader.Amid r cur frags later → Reader.Passable frags → Kept base s →
      ResRel (Upto Option.isSome (stage (AtHand readit out base q later) fun y _ => ∃ cs, AtHand readit out base q later y cs))
        (onIn out (read s)) (do let (word, rest) ← takeBytes false len (cur ++ payload frags); pure (word.map f, rest)) := by
    intro s r cur frags hs hamid hpass hkept
    obtain ⟨s', hs', hbuffered, hkept'⟩ := hread hs hamid hpass
    obtain ⟨hanswer, cur', frags', hamid', hpass', hleft⟩ := @Reader.Amid.drain _ _ _ _ len hamid hpass
    obtain ⟨rest, htake, hrest⟩ := takeBytes_drain len (cur ++ payload frags)
    have hat : AtHand readit out base q later (out, s') (Reader.drain len (cur ++ payload frags)).2 :=
      hleft ▸ .buffered hbuffered hamid' hpass' (hkept.trans hkept')
    rw [hs', hanswer, htake]
    refine .ok ⟨rfl, ?_⟩
    dsimp only
    rw [Option.isSome_map]
    cases hsome : (Reader.drain len (cur ++ payload frags)).1.isSome with
    | false => exact ⟨_, hat⟩
    | true =>
        rw [hrest hsome]
        exact hat
  cases h with
  | buffered hs hamid hpass hkept => exact hin hs hamid hpass hkept
  | @coming s s' r hnone hfilled hs hamid hne hpass hkept =>
      by_cases hlen : len = 0
      · obtain ⟨rest, htake, hrest⟩ := takeBytes_drain len (payload q)
        have hdrain : Reader.drain len (payload q) = (some [], payload q) := by
          rw [hlen]
          rfl
        rw [hdrain] at htake hrest
        rw [hzero hlen, htake, hrest rfl]
        exact .ok ⟨rfl, .coming hnone hfilled hs hamid hne hpass hkept⟩
      · obtain ⟨hfb, hlf⟩ := fillInputBuf_kept hfilled
        have hempty : s.strm.fbtbc = 0 := hfb.symm.trans (hs.fbtbc.symm.trans hamid.fbtbc)
        have hlast : s.strm.lastFrag = false := by
          rw [← hlf, ← hs.lastFrag, hamid.lastFrag]
          exact List.isEmpty_eq_false_iff.mpr hne
        have hword : 4 ≤ s'.strm.input.length := by
          obtain ⟨f, fs, rfl⟩ := List.exists_cons_of_ne_nil hne
          rw [← hs.rest_eq, hamid.rest, List.flatMap_cons]
          have hheader : (htonl f.header).length = 4 := rfl
          rw [Fragment.wire, List.nil_append, List.length_append, List.length_append, List.length_append, hheader]
          omega
        have hsame : read s = read s' := hfill hnone hfilled hempty hlast hword hlen
        dsimp only
        rw [hsame]
        exact hin hs hamid hpass hkept

/-- Filters get what is at hand, and leave the rest of it there. -/
theorem xdrrecOps_atHand (readit : Readit σ) (writeit : Writeit) (out : OutStream) (base : Stream σ)
    (q : List Fragment) (later : List (List Fragment)) :
    ReadUntil (AtHand readit out base q later) (fun y _ => ∃ cs, AtHand readit out base q later y cs)
      (xdrrecOps writeit readit) (listOps false) where
  weaken _ _ h := ⟨_, h⟩
  getlong x bs h := h.reads 4 wordOf (xdrrecGetlong readit)
    (fun hs hamid hpass => hs.getWord readit hamid hpass wordOf) (fun h => absurd h (by decide))
    (fun hnone hfill hempty hlast hword _ => getWord_fill wordOf hnone hfill hempty hlast hword)
  getbytes len x bs h := by
    have hreads := h.reads len id (fun s => xdrrecGetbytes readit s len)
      (fun hs hamid hpass => by
        rw [Option.map_id]
        exact hs.xdrrecGetbytes readit hamid hpass len)
      (by
        rintro rfl s
        rfl)
      xdrrecGetbytes_fill
    have hsame : (do let (bytes, rest) ← takeBytes false len bs; pure (bytes.map id, rest)) =
        takeBytes false len bs := by
      obtain ⟨rest, htake, _⟩ := takeBytes_drain len bs
      rw [htake]
      show Except.ok (Option.map id _, rest) = _
      rw [Option.map_id]
      rfl
    rw [hsame] at hreads
    exact hreads
  getint32 x bs h := by
    refine h.reads 4 wordOf
      (fun s => (xdrrecGetint32 readit s).map fun p => (p.1.map fun n : Nat => castInt 32 n, p.2))
      ?_ (fun h => absurd h (by decide)) ?_
    · intro s r cur frags hs hamid hpass
      obtain ⟨s', hget, hs', hkept⟩ := hs.getWord readit hamid hpass ntohl
      refine ⟨s', ?_, hs', hkept⟩
      rw [xdrrecGetint32_eq, hget]
      show some (Option.map _ (Option.map _ _), s') = _
      rw [Option.map_map]
      rfl
    · intro s s' hnone hfill hempty hlast hword _
      rw [xdrrecGetint32_eq, xdrrecGetint32_eq, getWord_fill ntohl hnone hfill hempty hlast hword]

/-- The value in front is decoded, and what is behind it is at hand. -/
theorem AtHand.decode {item : Item} (h : AtHand readit out base q later x (item.wire ++ bs)) (hitem : item.Sound)
    {env : XdrEnv} (halloc : ∀ k, env.alloc k = true) (writeit : Writeit) (calls : Nat) (blocks : List Block) :
    ∃ o d, item.func.decode (xdrrecOps writeit readit) env ⟨x, calls, blocks⟩ = .ok (true, o, d) ∧
      item.func.Holds o item.data ∧ AtHand readit out base q later d.stream bs := by
  obtain ⟨o, e, hlist, hrest, ho⟩ := item.func.finds false halloc hitem.hasType hitem.fits hitem.short
    ⟨item.wire ++ bs, calls, blocks⟩ bs rfl
  have hdecode := (xdrrecOps_atHand readit writeit out base q later).decode env item.func ⟨x, calls, blocks⟩
    ⟨item.wire ++ bs, calls, blocks⟩ ⟨h, rfl, rfl⟩
  rw [hlist] at hdecode
  obtain ⟨⟨ok, o', d⟩, hrun, hok, hobj, hst, _⟩ := hdecode.of_ok
  cases hok
  cases hobj
  rw [hrest] at hst
  exact ⟨o, d, hrun, ho, hst⟩

/-- Once a byte of the record has been read, what is left of it is in the buffer. -/
theorem AtHand.begun (h : AtHand readit out base q later x bs) (hlt : q ≠ [] → bs.length < (payload q).length) :
    ∃ s r cur frags, x = (out, s) ∧ Buffered s r ∧ Reader.Amid r cur frags later ∧ Reader.Passable frags ∧
      Kept base s ∧ cur ++ payload frags = bs := by
  cases h with
  | @buffered s r cur frags hs hamid hpass hkept => exact ⟨s, r, cur, frags, rfl, hs, hamid, hpass, hkept, rfl⟩
  | coming _ _ _ _ hne => exact absurd (hlt hne) (Nat.lt_irrefl _)

end AtHand

end RpcMt.XdrRec
