import RpcMt.RecOps
import RpcMt.RecRecords
import RpcMt.XdrBackEnds

/-! Decoding from a record stream. As long as a record has what is asked for, a filter is given the bytes of
the record, however they are cut into fragments and chunks; when it has not, the filter is told so and gives up.
That is what decoding the bytes of the record from memory is like, so record after record gives what their bytes
give. -/

namespace RpcMt.XdrRec

open RecMarking

namespace Reader

/-- No fragment that is refused. -/
def Passable (frags : List Fragment) : Prop := ∀ f ∈ frags, f.last = false → f.payload ≠ []

/-- The bytes asked for, and what is left of the record. A record that is short is used up. -/
def drain (len : Nat) (bs : List Byte) : Option (List Byte) × List Byte :=
  if bs.length < len then (none, []) else (some (bs.take len), bs.drop len)

/-- Bytes may be drained in two parts. -/
theorem drain_append {c len : Nat} {bs cs : List Byte} (hc : bs.length = c) (hle : c ≤ len) :
    drain len (bs ++ cs) = ((drain (len - c) cs).1.map (bs ++ ·), (drain (len - c) cs).2) := by
  unfold drain
  rw [List.length_append, hc]
  by_cases hshort : cs.length < len - c
  · rw [if_pos hshort, if_pos (by omega)]
    rfl
  · have htake : (bs ++ cs).take len = bs ++ cs.take (len - c) := by
      rw [List.take_append, List.take_of_length_le (by omega), hc]
    have hdrop : (bs ++ cs).drop len = cs.drop (len - c) := by
      rw [List.drop_append, List.drop_eq_nil_of_le (by omega), hc]
      rfl
    rw [if_neg hshort, if_neg (by omega), htake, hdrop]
    rfl

variable {r : Reader} {cur : List Byte} {frags : List Fragment} {later : List (List Fragment)}

/-- Reading drains the record. -/
theorem Amid.drain {len : Nat} (h : Amid r cur frags later) (hpass : Passable frags) :
    (r.getbytes len).1 = (Reader.drain len (cur ++ payload frags)).1 ∧
      ∃ cur' frags', Amid (r.getbytes len).2 cur' frags' later ∧ Passable frags' ∧
        cur' ++ payload frags' = (Reader.drain len (cur ++ payload frags)).2 := by
  fun_induction Reader.getbytes len r generalizing cur frags with
  | case1 r => exact ⟨rfl, cur, frags, h, hpass, rfl⟩
  | case2 len r hlen hempty hlast =>
      obtain ⟨rfl, rfl⟩ := h.atEnd hempty hlast
      have hshort : Reader.drain len ([] ++ payload []) = (none, []) := if_pos (Nat.pos_of_ne_zero hlen)
      rw [hshort]
      exact ⟨rfl, [], [], h, hpass, rfl⟩
  | case3 len r hlen hempty hlast r' hheader =>
      obtain ⟨rfl, f, fs, rfl⟩ := h.between hempty (Bool.eq_false_iff.mpr hlast)
      have hok := h.header.1
      rw [hheader] at hok
      exact absurd (Fragment.header_ne_zero (hpass f List.mem_cons_self)) (of_decide_eq_false hok.symm)
  | case4 len r hlen hempty hlast r' hheader ih =>
      obtain ⟨rfl, f, fs, rfl⟩ := h.between hempty (Bool.eq_false_iff.mpr hlast)
      have hin := h.header.2
      rw [hheader] at hin
      have hnext := ih hin fun g hg => hpass g (List.mem_cons_of_mem f hg)
      exact hnext
  | case5 len r hlen hempty r' htake =>
      rw [h.take (by rw [h.fbtbc]; omega)] at htake
      cases htake
  | case6 len r hlen hempty bytes r' htake more =>
      rename_i ih
      obtain ⟨c, hc⟩ : ∃ c, c = min len r.fbtbc := ⟨_, rfl⟩
      subst more
      rw [← hc] at htake ih ⊢
      have hfb := h.fbtbc
      obtain ⟨rfl, hin⟩ := h.taken (by omega) htake
      have hlength : (cur.take c).length = c := by
        rw [List.length_take]
        omega
      have hsplit : cur ++ payload frags = cur.take c ++ (cur.drop c ++ payload frags) := by
        rw [← List.append_assoc, List.take_append_drop]
      obtain ⟨hread, cur', frags', hamid, hpass', hleft⟩ := ih hin hpass
      rw [hsplit, drain_append hlength (by omega)]
      refine ⟨?_, cur', frags', hamid, hpass', hleft⟩
      rw [hread]

/-- A record without a fragment that is refused is skipped to its end. -/
theorem Amid.skipped (h : Amid r cur frags later) (hpass : Passable frags) :
    r.skip.1 = true ∧ Amid r.skip.2 [] [] later := by
  have hok : r.skip.1 = true := by
    fun_induction Reader.skip r generalizing cur frags with
    | case1 r _ r' htake =>
        rw [h.take (Nat.le_of_eq h.fbtbc)] at htake
        cases htake
    | case2 => rfl
    | case3 r _ bytes r' htake hlast r'' hheader =>
        have hin := h.passed htake
        obtain ⟨_, f, fs, rfl⟩ := hin.between rfl ((take_some htake).2.2 ▸ Bool.eq_false_iff.mpr hlast)
        have hok := hin.header.1
        rw [hheader] at hok
        exact absurd (Fragment.header_ne_zero (hpass f List.mem_cons_self)) (of_decide_eq_false hok.symm)
    | case4 r _ bytes r' htake hlast r'' hheader ih =>
        have hin := h.passed htake
        obtain ⟨_, f, fs, rfl⟩ := hin.between rfl ((take_some htake).2.2 ▸ Bool.eq_false_iff.mpr hlast)
        have hnext := hin.header.2
        rw [hheader] at hnext
        exact ih hnext fun g hg => hpass g (List.mem_cons_of_mem f hg)
    | case5 => rfl
  exact ⟨hok, h.skip.1 hok⟩

end Reader

/-! ### In a record -/

section InRecord

variable {σ : Type} {readit : Readit σ} {pending : σ → List Byte} {out : OutStream} {turns : Nat}
  {later : List (List Fragment)}

/-- The stream is in a record that has these bytes left, with the records `later` behind it. -/
def InRecord (pending : σ → List Byte) (out : OutStream) (turns : Nat) (later : List (List Fragment))
    (x : OutStream × Stream σ) (bs : List Byte) : Prop :=
  x.1 = out ∧ ∃ r cur frags, Shows pending x.2 r ∧ Reader.Amid r cur frags later ∧ Reader.Passable frags ∧
    cur ++ payload frags = bs ∧ r.rest.length + 2 ≤ turns

/-- The stream is in such a record, with some bytes left. -/
def SomewhereIn (pending : σ → List Byte) (out : OutStream) (turns : Nat) (later : List (List Fragment))
    (x : OutStream × Stream σ) (_ : List Byte) : Prop := ∃ bs, InRecord pending out turns later x bs

theorem takeBytes_drain (len : Nat) (bs : List Byte) :
    ∃ rest, takeBytes false len bs = .ok ((Reader.drain len bs).1, rest) ∧
      ((Reader.drain len bs).1.isSome = true → rest = (Reader.drain len bs).2) := by
  unfold takeBytes Reader.drain
  split
  · exact ⟨bs, rfl, fun h => absurd h Bool.false_ne_true⟩
  · exact ⟨bs.drop len, rfl, fun _ => rfl⟩

/-- The answer to a read is that of the plain bytes. -/
theorem InRecord.reads {x : OutStream × Stream σ} {bs : List Byte} (h : InRecord pending out turns later x bs)
    {α : Type} (len : Nat) (f : List Byte → α) {read : Option (Option α × Stream σ)}
    (hread : ∀ r, Shows pending x.2 r →
      ∃ s', read = some ((r.getbytes len).1.map f, s') ∧ Shows pending s' (r.getbytes len).2) :
    ResRel (Upto Option.isSome (stage (InRecord pending out turns later) (SomewhereIn pending out turns later)))
      (onIn x.1 read) (do let (word, rest) ← takeBytes false len bs; pure (word.map f, rest)) := by
  obtain ⟨hout, r, cur, frags, hshows, hamid, hpass, rfl, hturns⟩ := h
  obtain ⟨s', hs', hshows'⟩ := hread r hshows
  obtain ⟨hanswer, cur', frags', hamid', hpass', hleft⟩ := @Reader.Amid.drain _ _ _ _ len hamid hpass
  have hle := r.getbytes_le len
  obtain ⟨rest, htake, hrest⟩ := takeBytes_drain len (cur ++ payload frags)
  have hin : InRecord pending out turns later (x.1, s') (Reader.drain len (cur ++ payload frags)).2 :=
    ⟨hout, _, cur', frags', hshows', hamid', hpass', hleft, by omega⟩
  rw [hs', hanswer, htake]
  refine .ok ⟨rfl, ?_⟩
  dsimp only
  rw [Option.isSome_map]
  cases hsome : (Reader.drain len (cur ++ payload frags)).1.isSome with
  | false => exact ⟨_, hin⟩
  | true =>
      rw [hrest hsome]
      exact hin

/-- A record stream reads like the bytes of the record, until they are short. -/
theorem xdrrecOps_readUntil (hs : Supplies readit pending) (writeit : Writeit) :
    ReadUntil (InRecord pending out turns later) (SomewhereIn pending out turns later) (xdrrecOps writeit readit)
      (listOps false) where
  weaken _ _ h := ⟨_, h⟩
  getlong x bs h := h.reads 4 wordOf fun r hshows => hshows.getWord hs wordOf
  getbytes len x bs h := by
    have hreads := h.reads len id fun r hshows => by
      rw [Option.map_id]
      exact hshows.xdrrecGetbytes hs len
    have hsame : (do let (bytes, rest) ← takeBytes false len bs; pure (bytes.map id, rest)) =
        takeBytes false len bs := by
      obtain ⟨rest, htake, _⟩ := takeBytes_drain len bs
      rw [htake]
      show Except.ok (Option.map id _, rest) = _
      rw [Option.map_id]
      rfl
    rw [hsame] at hreads
    exact hreads
  getint32 x bs h := h.reads 4 wordOf fun r hshows => by
    obtain ⟨s', hget, hshows'⟩ := hshows.getWord hs ntohl
    refine ⟨s', ?_, hshows'⟩
    rw [xdrrecGetint32_eq, hget]
    show some (Option.map _ (Option.map _ _), s') = _
    rw [Option.map_map]
    rfl

/-- Skipping leads from anywhere in a record to the start of the next one. -/
theorem SomewhereIn.skiprecord (hs : Supplies readit pending) {x : OutStream × Stream σ} {bs : List Byte}
    {q : List Fragment} (hmarked : Marked q) (hfits : ∀ f ∈ q, f.Fits)
    (h : SomewhereIn pending out turns (q :: later) x bs) :
    ∃ s', onIn x.1 (xdrrecSkiprecord readit turns x.2) = .ok (true, x.1, s') ∧
      InRecord pending out turns later (x.1, s') (payload q) := by
  obtain ⟨_, hout, r, cur, frags, hshows, hamid, hpass, rfl, hturns⟩ := h
  obtain ⟨s', hskip, hshows'⟩ := hshows.xdrrecSkiprecord hs hturns
  have hok : r.skiprecord.1 = true := by
    rw [Reader.skiprecord, (hamid.skipped hpass).1]
    rfl
  have hle : r.skiprecord.2.rest.length ≤ r.rest.length := r.call_le .skiprecord
  have hrest : r.skiprecord.2.rest = q.flatMap Fragment.wire ++ later.flatMap fun q => q.flatMap Fragment.wire := by
    rw [Reader.skiprecord, if_pos (hamid.skipped hpass).1]
    exact (hamid.skipped hpass).2.rest
  have hentered : Reader.Amid r.skiprecord.2 [] q later := by
    rw [Reader.skiprecord, if_pos (hamid.skipped hpass).1] at hrest ⊢
    refine ⟨hrest, (hamid.skipped hpass).2.fbtbc, ?_, fun _ => hmarked.delimited, hfits⟩
    obtain ⟨init, b, rfl, _⟩ := hmarked.delimited
    cases init with
    | nil => rfl
    | cons f fs => rfl
  refine ⟨s', ?_, hout, _, [], q, hshows', hentered, hmarked.payload_ne_nil, rfl, by omega⟩
  rw [hskip, hok]
  rfl

end InRecord

/-! ### Record after record -/

section Receive

variable {σ : Type} (writeit : Writeit) (readit : Readit σ) (env : XdrEnv) (turns : Nat)

/-- A receiver that skips to each record and decodes it by the filter for it, whatever comes of it: the statuses
and the objects. -/
def recvRecords : List Ty → Decoding (OutStream × Stream σ) →
    Res (List (Bool × Obj) × Decoding (OutStream × Stream σ))
  | [], d => .ok ([], d)
  | func :: funcs, d => do
      let (ok, x) ← onIn d.stream.1 (xdrrecSkiprecord readit turns d.stream.2)
      if ok then do
        let (stat, o, d) ← func.decode (xdrrecOps writeit readit) env { d with stream := x }
        let (rs, d) ← recvRecords funcs d
        pure ((stat, o) :: rs, d)
      else pure ([], { d with stream := x })

/-- The same of records that lie in memory. -/
def decodeRecords : List (Ty × List Byte) → Nat → List Block → Res (List (Bool × Obj) × Nat × List Block)
  | [], calls, blocks => .ok ([], calls, blocks)
  | (func, bs) :: records, calls, blocks => do
      let (stat, o, d) ← func.decode (xdrmemOps false) env ⟨.over bs, calls, blocks⟩
      let (rs, calls, blocks) ← decodeRecords records d.calls d.blocks
      pure ((stat, o) :: rs, calls, blocks)

end Receive

section Receive

variable {σ : Type} {readit : Readit σ} {pending : σ → List Byte} {turns : Nat} {out : OutStream} (writeit : Writeit)
  (env : XdrEnv)

/-- A filter gets of a record what it gets of its bytes in memory, and leaves the stream in the record. -/
theorem InRecord.decode (hs : Supplies readit pending) {later : List (List Fragment)}
    {x : OutStream × Stream σ} {bs : List Byte} (h : InRecord pending out turns later x bs) (func : Ty) (calls : Nat)
    (blocks : List Block) :
    ResRel (fun p q => p.1 = q.1 ∧ p.2.1 = q.2.1 ∧ SomewhereIn pending out turns later p.2.2.stream bs ∧
        p.2.2.calls = q.2.2.calls ∧ p.2.2.blocks = q.2.2.blocks)
      (func.decode (xdrrecOps writeit readit) env ⟨x, calls, blocks⟩)
      (func.decode (xdrmemOps false) env ⟨.over bs, calls, blocks⟩) := by
  have hlist := (xdrrecOps_readUntil hs writeit).decode env func ⟨x, calls, blocks⟩ ⟨bs, calls, blocks⟩ ⟨h, rfl, rfl⟩
  have hmem := decode_xdrmem (View.inBounds_over bs) env false func calls blocks
  rw [View.rest_over] at hmem
  refine hlist.join hmem ?_
  rintro ⟨ok, o, d⟩ ⟨ok', o', e⟩ ⟨ok'', o'', d'⟩ ⟨hok, ho, hst, hcalls, hblocks⟩ ⟨hok', ho', _, hcalls', hblocks'⟩
  refine ⟨hok.trans hok'.symm, ho.trans ho'.symm, ?_, hcalls.trans hcalls'.symm, hblocks.trans hblocks'.symm⟩
  cases ok with
  | false =>
      obtain ⟨left, hin⟩ := hst
      exact ⟨left, hin⟩
  | true => exact ⟨_, hst⟩

theorem SomewhereIn.recvRecords (hs : Supplies readit pending) {records : List (List Fragment)}
    (hrecords : ∀ q ∈ records, Marked q ∧ ∀ f ∈ q, f.Fits) {funcs : List Ty} (hfuncs : funcs.length ≤ records.length)
    {x : OutStream × Stream σ} {bs : List Byte} (h : SomewhereIn pending out turns records x bs) (calls : Nat)
    (blocks : List Block) :
    ResRel (fun p q => p.1 = q.1 ∧ p.2.calls = q.2.1 ∧ p.2.blocks = q.2.2)
      (recvRecords writeit readit env turns funcs ⟨x, calls, blocks⟩)
      (decodeRecords env (funcs.zip (records.map payload)) calls blocks) := by
  induction funcs generalizing records x bs calls blocks with
  | nil => exact .ok ⟨rfl, rfl, rfl⟩
  | cons func funcs ih =>
      cases records with
      | nil => cases hfuncs
      | cons q records =>
          obtain ⟨hmarked, hfits⟩ := hrecords q List.mem_cons_self
          obtain ⟨s', hskip, hin⟩ := h.skiprecord hs hmarked hfits
          have hdecode := hin.decode writeit env hs func calls blocks
          rw [XdrRec.recvRecords, hskip]
          refine hdecode.bind ?_
          rintro ⟨stat, o, d⟩ ⟨_, _, e⟩ ⟨rfl, rfl, hst, hcalls, hblocks⟩
          have hrest := ih (fun p hp => hrecords p (List.mem_cons_of_mem q hp)) (Nat.le_of_succ_le_succ hfuncs) hst
            d.calls d.blocks
          dsimp only at hcalls hblocks ⊢
          rw [hcalls, hblocks] at hrest
          have hd : d = ⟨d.stream, e.calls, e.blocks⟩ := by
            rw [← hcalls, ← hblocks]
          rw [hd]
          refine hrest.bind ?_
          rintro ⟨rs, d'⟩ ⟨_, calls', blocks'⟩ ⟨rfl, hcalls', hblocks'⟩
          exact .ok ⟨rfl, hcalls', hblocks'⟩

end Receive

theorem SomewhereIn.create {σ : Type} {pending : σ → List Byte} {sendsize recvsize : Nat}
    (hsize : sendsize + recvsize + 4 < 2 ^ 31) {handle : σ} {turns : Nat} (hturns : (pending handle).length + 2 ≤ turns)
    {records : List (List Fragment)} (hpending : pending handle = records.flatMap fun q => q.flatMap Fragment.wire)
    (out : OutStream) :
    SomewhereIn pending out turns records (out, ⟨XdrRec.create (fixBufSize recvsize), handle⟩) [] := by
  refine ⟨[], rfl, _, [], [], Shows.create hsize handle, ⟨hpending, rfl, rfl, ?_, ?_⟩, ?_, rfl, hturns⟩
  · exact fun hne => absurd rfl hne
  · exact fun f hf => absurd hf List.not_mem_nil
  · exact fun f hf => absurd hf List.not_mem_nil

end RpcMt.XdrRec
