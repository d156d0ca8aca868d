import RpcMt.RecReader

/-! The reader, and with it the decoding half of a record stream, on a stream of records. However much of
a record has been read, and however often more was asked for than it has, skipping it leads to the start
of the next one. -/

namespace RpcMt.XdrRec

open RecMarking

namespace Reader

/-- The reader has `cur` left in the fragment, the fragments `frags` in the record behind it, and then the
records `later`. -/
structure Amid (r : Reader) (cur : List Byte) (frags : List Fragment) (later : List (List Fragment)) : Prop where
  rest : r.rest = cur ++ (frags.flatMap Fragment.wire ++ later.flatMap fun q => q.flatMap Fragment.wire)
  fbtbc : r.fbtbc = cur.length
  lastFrag : r.lastFrag = frags.isEmpty
  delimited : frags ≠ [] → Delimited frags
  fits : ∀ f ∈ frags, f.Fits

section Amid

variable {r : Reader} {cur : List Byte} {frags : List Fragment} {later : List (List Fragment)}

/-- The bytes of the fragment are there to be taken. -/
theorem Amid.take (h : Amid r cur frags later) {n : Nat} (hn : n ≤ cur.length) :
    r.take n = (some (cur.take n), { r with
      rest := cur.drop n ++ (frags.flatMap Fragment.wire ++ later.flatMap fun q => q.flatMap Fragment.wire) }) := by
  have hlen : ¬r.rest.length < n := by
    rw [h.rest, List.length_append]
    omega
  rw [Reader.take, if_neg hlen, h.rest, List.take_append_of_le_length hn, List.drop_append_of_le_length hn]

/-- At the end of a fragment the next one is entered; its header is refused if it is zero. -/
theorem Amid.header {f : Fragment} (h : Amid r [] (f :: frags) later) :
    r.header.1 = decide (f.header ≠ 0) ∧ Amid r.header.2 f.payload frags later := by
  have hfits := h.fits f List.mem_cons_self
  obtain ⟨hlast, hrest⟩ := (h.delimited (List.cons_ne_nil _ _)).cons
  have hrest' : r.rest = htonl f.header ++ (f.payload ++
      (frags.flatMap Fragment.wire ++ later.flatMap fun q => q.flatMap Fragment.wire)) := by
    rw [h.rest, List.flatMap_cons, Fragment.wire]
    simp only [List.nil_append, List.append_assoc]
  have htake : r.take 4 = (some (htonl f.header), { r with rest := f.payload ++
      (frags.flatMap Fragment.wire ++ later.flatMap fun q => q.flatMap Fragment.wire) }) := by
    have hlen : ¬r.rest.length < 4 := by
      rw [hrest', List.length_append]
      show ¬4 + _ < 4
      omega
    rw [Reader.take, if_neg hlen, hrest']
    rfl
  have hfits' : ∀ g ∈ frags, g.Fits := fun g hg => h.fits g (List.mem_cons_of_mem f hg)
  unfold Reader.header
  rw [htake]
  dsimp only
  rw [ntohl_htonl (Fragment.header_lt hfits)]
  by_cases hzero : f.header = 0
  · have hempty : f.payload = [] := by
      rw [← List.length_eq_zero_iff, ← Fragment.header_mod hfits, hzero, Nat.zero_mod]
    have hbit : f.last = false := by
      rw [← Fragment.header_testBit hfits, hzero]
      rfl
    rw [if_pos hzero, decide_eq_false (not_not.mpr hzero)]
    refine ⟨rfl, rfl, ?_, ?_, hrest, hfits'⟩
    · rw [hempty]
      exact h.fbtbc
    · exact hbit.symm.trans hlast
  · rw [if_neg hzero, decide_eq_true hzero]
    refine ⟨rfl, rfl, ?_, ?_, hrest, hfits'⟩
    · exact Fragment.header_mod hfits
    · exact (Fragment.header_testBit hfits).trans hlast

/-- Between two fragments of a record. -/
theorem Amid.between (h : Amid r cur frags later) (hempty : r.fbtbc = 0) (hlast : r.lastFrag = false) :
    cur = [] ∧ ∃ f fs, frags = f :: fs := by
  refine ⟨List.length_eq_zero_iff.mp (h.fbtbc.symm.trans hempty), ?_⟩
  rw [h.lastFrag] at hlast
  cases frags with
  | nil => cases hlast
  | cons f fs => exact ⟨f, fs, rfl⟩

/-- At the end of a record. -/
theorem Amid.atEnd (h : Amid r cur frags later) (hempty : r.fbtbc = 0) (hlast : r.lastFrag = true) :
    cur = [] ∧ frags = [] :=
  ⟨List.length_eq_zero_iff.mp (h.fbtbc.symm.trans hempty), List.isEmpty_iff.mp (h.lastFrag.symm.trans hlast)⟩

/-- Taking bytes of the fragment. -/
theorem Amid.taken (h : Amid r cur frags later) {n : Nat} (hn : n ≤ r.fbtbc) {bytes : List Byte} {r' : Reader}
    (htake : r.take n = (some bytes, r')) :
    bytes = cur.take n ∧ Amid { r' with fbtbc := r.fbtbc - n } (cur.drop n) frags later := by
  rw [h.fbtbc] at hn
  rw [h.take hn] at htake
  cases htake
  refine ⟨rfl, rfl, ?_, h.lastFrag, h.delimited, h.fits⟩
  show r.fbtbc - n = (cur.drop n).length
  rw [List.length_drop, h.fbtbc]

/-- Passing over the fragment. -/
theorem Amid.passed (h : Amid r cur frags later) {bytes : List Byte} {r' : Reader}
    (htake : r.take r.fbtbc = (some bytes, r')) : Amid { r' with fbtbc := 0 } [] frags later := by
  have hin := (h.taken (Nat.le_refl _) htake).2
  rw [Nat.sub_self, h.fbtbc, List.drop_length] at hin
  exact hin

/-- Reading stays in the record: what is read is next in it, and it is read if the record has as much and
no fragment that is refused. -/
theorem Amid.getbytes {len : Nat} (h : Amid r cur frags later) :
    (∃ cur' frags', Amid (r.getbytes len).2 cur' frags' later) ∧
      (∀ bs, (r.getbytes len).1 = some bs →
        len ≤ (cur ++ payload frags).length ∧ bs = (cur ++ payload frags).take len) ∧
      ((∀ f ∈ frags, f.last = false → f.payload ≠ []) → len ≤ (cur ++ payload frags).length →
        (r.getbytes len).1.isSome = true) := by
  fun_induction Reader.getbytes len r generalizing cur frags with
  | case1 r =>
      refine ⟨⟨cur, frags, h⟩, fun bs hbs => ?_, fun _ _ => rfl⟩
      cases hbs
      exact ⟨Nat.zero_le _, rfl⟩
  | case2 len r hlen hempty hlast =>
      obtain ⟨rfl, rfl⟩ := h.atEnd hempty hlast
      refine ⟨⟨[], [], h⟩, fun bs hbs => ?_, fun _ hle => ?_⟩
      · cases hbs
      · exact absurd (Nat.le_zero.mp hle) hlen
  | case3 len r hlen hempty hlast r' hheader =>
      obtain ⟨rfl, f, fs, rfl⟩ := h.between hempty (Bool.eq_false_iff.mpr hlast)
      obtain ⟨hok, hin⟩ := h.header
      rw [hheader] at hok hin
      refine ⟨⟨_, _, hin⟩, fun bs hbs => ?_, fun hsound _ => ?_⟩
      · cases hbs
      · have hne := Fragment.header_ne_zero (hsound f List.mem_cons_self)
        exact absurd hne (of_decide_eq_false hok.symm)
  | case4 len r hlen hempty hlast r' hheader ih =>
      obtain ⟨rfl, f, fs, rfl⟩ := h.between hempty (Bool.eq_false_iff.mpr hlast)
      obtain ⟨_, hin⟩ := h.header
      rw [hheader] at hin
      obtain ⟨hamid, hsome, hread⟩ := ih hin
      refine ⟨hamid, hsome, fun hsound => hread fun g hg => hsound g (List.mem_cons_of_mem f hg)⟩
  | case5 len r hlen hempty r' htake =>
      rw [h.take (by rw [h.fbtbc]; omega)] at htake
      cases htake
  | case6 len r hlen hempty bytes r' htake more =>
      rename_i ih
      obtain ⟨c, hc⟩ : ∃ c, c = min len r.fbtbc := ⟨_, rfl⟩
      subst more
      rw [← hc] at htake ih ⊢
      have hfb := h.fbtbc
      obtain ⟨rfl, hin⟩ := h.taken (by omega) htake
      obtain ⟨hamid, hsome, hread⟩ := ih hin
      have hdrop : (cur.drop c ++ payload frags) = (cur ++ payload frags).drop c :=
        (List.drop_append_of_le_length (by omega)).symm
      have htaken : cur.take c = (cur ++ payload frags).take c :=
        (List.take_append_of_le_length (by omega)).symm
      have hlength : (cur.drop c ++ payload frags).length = (cur ++ payload frags).length - c := by
        rw [hdrop, List.length_drop]
      have hcle : c ≤ (cur ++ payload frags).length := by
        rw [List.length_append]
        omega
      refine ⟨hamid, fun bs hbs => ?_, fun hsound hle => ?_⟩
      · obtain ⟨bs', hbs', rfl⟩ := Option.map_eq_some_iff.mp hbs
        obtain ⟨hle, rfl⟩ := hsome bs' hbs'
        rw [hlength] at hle
        refine ⟨by omega, ?_⟩
        rw [hdrop, htaken, ← List.take_add]
        congr 1
        omega
      · show (Option.map _ _).isSome = true
        rw [Option.isSome_map]
        exact hread hsound (by omega)

/-- Skipping goes to the end of the record, or stops in it at a header that is refused. -/
theorem Amid.skip (h : Amid r cur frags later) :
    (r.skip.1 = true → Amid r.skip.2 [] [] later) ∧ ∃ cur' frags', Amid r.skip.2 cur' frags' later := by
  fun_induction Reader.skip r generalizing cur frags with
  | case1 r _ r' htake =>
      rw [h.take (Nat.le_of_eq h.fbtbc)] at htake
      cases htake
  | case2 r _ bytes r' htake hlast =>
      have hin := h.passed htake
      obtain ⟨_, rfl⟩ := hin.atEnd rfl ((take_some htake).2.2 ▸ hlast)
      exact ⟨fun _ => hin, _, _, hin⟩
  | case3 r _ bytes r' htake hlast r'' hheader =>
      have hin := h.passed htake
      obtain ⟨_, f, fs, rfl⟩ := hin.between rfl ((take_some htake).2.2 ▸ Bool.eq_false_iff.mpr hlast)
      have hnext := hin.header.2
      rw [hheader] at hnext
      refine ⟨fun hok => ?_, _, _, hnext⟩
      cases hok
  | case4 r _ bytes r' htake hlast r'' hheader ih =>
      have hin := h.passed htake
      obtain ⟨_, f, fs, rfl⟩ := hin.between rfl ((take_some htake).2.2 ▸ Bool.eq_false_iff.mpr hlast)
      have hnext := hin.header.2
      rw [hheader] at hnext
      exact ih hnext
  | case5 r hend =>
      rw [not_or, Nat.not_lt, Nat.le_zero_eq, Bool.not_eq_false] at hend
      obtain ⟨rfl, rfl⟩ := h.atEnd hend.1 hend.2
      exact ⟨fun _ => h, _, _, h⟩

end Amid

/-! ### Along the records -/

/-- The reader when all records have been passed and one more was asked for. -/
def past : Reader := ⟨[], 0, false⟩

theorem header_past : past.header = (false, past) := rfl

theorem getbytes_past (len : Nat) : (past.getbytes len).2 = past := by
  by_cases hlen : len = 0
  · rw [getbytes, if_pos hlen]
  · rw [getbytes_header hlen rfl rfl, header_past]
    rfl

theorem skip_past : past.skip = (false, past) := by
  rw [skip_take (Or.inr rfl)]
  rfl

/-- Where the reader is among the records when so many of them have been entered. -/
def Entered (records : List (List Fragment)) (k : Nat) (r : Reader) : Prop :=
  (∃ cur frags, Amid r cur frags (records.drop k)) ∨ (records.length < k ∧ r = past)

section Records

variable {records : List (List Fragment)} (hrecords : ∀ q ∈ records, Delimited q ∧ ∀ f ∈ q, f.Fits)
  {k : Nat} {r : Reader}

include hrecords

/-- A record that is skipped with success leads to the start of the next one. -/
theorem Entered.skiprecord (h : Entered records k r) (hok : r.skiprecord.1 = true) {q : List Fragment}
    (hq : records[k]? = some q) : Amid r.skiprecord.2 [] q (records.drop (k + 1)) := by
  obtain ⟨hk, hget⟩ := List.getElem?_eq_some_iff.mp hq
  rcases h with ⟨cur, frags, h⟩ | ⟨hpast, _⟩
  · have hskip : r.skip.1 = true := by
      unfold Reader.skiprecord at hok
      split at hok
      · assumption
      · exact hok
    have hend := h.skip.1 hskip
    have hdrop : records.drop k = q :: records.drop (k + 1) := by
      rw [List.drop_eq_getElem_cons hk, hget]
    obtain ⟨hdelimited, hfits⟩ := hrecords q (hget ▸ List.getElem_mem hk)
    have hne : q ≠ [] := by
      obtain ⟨init, bs, rfl, _⟩ := hdelimited
      exact List.append_ne_nil_of_right_ne_nil _ (List.cons_ne_nil _ _)
    rw [Reader.skiprecord, if_pos hskip]
    refine ⟨?_, hend.fbtbc, ?_, fun _ => hdelimited, hfits⟩
    · show r.skip.2.rest = _
      rw [hend.rest, hdrop, List.flatMap_cons]
      rfl
    · show false = q.isEmpty
      cases q with
      | nil => exact absurd rfl hne
      | cons f fs => rfl
  · exact absurd hk (Nat.lt_asymm hpast)

/-- Every call stays in its record, except one that skips a record with success. -/
theorem Entered.call (h : Entered records k r) (c : ReadCall) :
    Entered records (if (r.call c).1 = .skipped true then k + 1 else k) (r.call c).2 := by
  have hreads : ∀ len, Entered records k (r.getbytes len).2 := by
    intro len
    rcases h with ⟨cur, frags, h⟩ | ⟨hpast, rfl⟩
    · exact Or.inl h.getbytes.1
    · rw [getbytes_past]
      exact Or.inr ⟨hpast, rfl⟩
  have hskips : Entered records k r.skip.2 := by
    rcases h with ⟨cur, frags, h⟩ | ⟨hpast, rfl⟩
    · exact Or.inl h.skip.2
    · rw [skip_past]
      exact Or.inr ⟨hpast, rfl⟩
  cases c with
  | getlong => exact hreads 4
  | getint32 => exact hreads 4
  | getbytes len => exact hreads len
  | eof => exact hskips
  | skiprecord =>
      show Entered records (if Answer.skipped r.skiprecord.1 = .skipped true then k + 1 else k) r.skiprecord.2
      cases hok : r.skip.1 with
      | false =>
          have hskip : r.skiprecord = r.skip := by
            rw [Reader.skiprecord, hok]
            rfl
          rw [hskip, hok, if_neg (by decide)]
          exact hskips
      | true =>
          have htrue : r.skiprecord.1 = true := by
            rw [Reader.skiprecord, hok]
            rfl
          rw [htrue, if_pos rfl]
          cases hq : records[k]? with
          | some q => exact Or.inl ⟨[], q, h.skiprecord hrecords htrue hq⟩
          | none =>
              have hle := List.getElem?_eq_none_iff.mp hq
              right
              refine ⟨Nat.lt_succ_of_le hle, ?_⟩
              rcases h with ⟨cur, frags, h⟩ | ⟨_, rfl⟩
              · have hend := h.skip.1 hok
                have hnone : r.skip.2.rest = [] := by
                  rw [hend.rest, List.drop_eq_nil_of_le hle]
                  rfl
                have hempty : r.skip.2.fbtbc = 0 := hend.fbtbc
                rw [Reader.skiprecord, if_pos hok]
                show Reader.mk r.skip.2.rest r.skip.2.fbtbc false = past
                rw [hnone, hempty]
                rfl
              · rw [skip_past] at hok
                cases hok

theorem Entered.run (h : Entered records k r) (calls : List ReadCall) :
    Entered records (k + (run calls r).1.count (.skipped true)) (run calls r).2 := by
  induction calls generalizing k r with
  | nil => exact h
  | cons c calls ih =>
      have hstep := ih (h.call hrecords c)
      have hcount : (if (r.call c).1 = .skipped true then k + 1 else k) + (run calls (r.call c).2).1.count (.skipped true) =
          k + (run (c :: calls) r).1.count (.skipped true) := by
        rw [run, List.count_cons]
        by_cases hc : (r.call c).1 = .skipped true
        · rw [if_pos hc, if_pos (beq_iff_eq.mpr hc)]
          omega
        · rw [if_neg hc, if_neg (by rw [beq_iff_eq]; exact hc), Nat.add_zero]
      rw [← hcount]
      exact hstep

end Records

end Reader

open Reader in
/-- However `readit` cuts the bytes, every call returns with the reader's answer. On a stream of records, the
record skipped to is the one after those skipped to before, and what is read next is its bytes from the
first on. -/
theorem runReads_refines {σ : Type} {readit : Readit σ} {pending : σ → List Byte} (hs : Supplies readit pending)
    {sendsize recvsize : Nat} (hsize : sendsize + recvsize + 4 < 2 ^ 31) (handle : σ) (calls : List ReadCall)
    {turns : Nat} (hturns : (pending handle).length + 2 ≤ turns) :
    ∃ s, runReads readit turns calls ⟨create (fixBufSize recvsize), handle⟩ =
        some ((run calls ⟨pending handle, 0, true⟩).1, s) ∧
      ∀ records : List (List Fragment), (∀ q ∈ records, Delimited q ∧ ∀ f ∈ q, f.Fits) →
        pending handle = (records.flatMap fun q => q.flatMap Fragment.wire) →
        ∀ s', xdrrecSkiprecord readit turns s = some (true, s') →
        ∀ q, records[(run calls ⟨pending handle, 0, true⟩).1.count (.skipped true)]? = some q →
        ∀ len, ∃ bs s'', xdrrecGetbytes readit s' len = some (bs, s'') ∧
          (∀ b, bs = some b → len ≤ (payload q).length ∧ b = (payload q).take len) ∧
          (Marked q → len ≤ (payload q).length → bs.isSome = true) := by
  have hstart : Shows pending ⟨create (fixBufSize recvsize), handle⟩ ⟨pending handle, 0, true⟩ :=
    Shows.create hsize handle
  obtain ⟨s, hrun, hshows, hle⟩ := hstart.runReads hs hturns calls
  refine ⟨s, hrun, fun records hrecords hpending s' hskip q hq len => ?_⟩
  have hentered : Entered records 0 ⟨pending handle, 0, true⟩ := by
    refine Or.inl ⟨[], [], hpending, rfl, rfl, fun hne => absurd rfl hne, fun f hf => absurd hf List.not_mem_nil⟩
  have hhere := hentered.run hrecords calls
  rw [Nat.zero_add] at hhere
  obtain ⟨s₁, hskip', hshows'⟩ := hshows.xdrrecSkiprecord hs (Nat.le_trans (Nat.add_le_add_right hle 2) hturns)
  rw [hskip'] at hskip
  obtain ⟨hok, rfl⟩ := Prod.mk.inj (Option.some.inj hskip)
  have hamid := hhere.skiprecord hrecords hok hq
  obtain ⟨s'', hget, _⟩ := hshows'.xdrrecGetbytes hs len
  obtain ⟨_, hsome, hread⟩ := hamid.getbytes
  exact ⟨_, s'', hget, hsome, fun hmarked => hread hmarked.payload_ne_nil⟩

/-- A `readit` that never reads more than three bytes. -/
def byThrees : Readit (List Byte) := fun h n =>
  if h = [] then some (none, []) else some (some (h.take (min 3 n)), h.drop (min 3 n))

theorem byThrees_supplies : Supplies byThrees id := by
  refine ⟨fun h n hn hne => ⟨h.take (min 3 n), h.drop (min 3 n), if_neg hne, ?_, ?_, ?_⟩, fun h n hnil => ?_⟩
  · have hlen : 0 < h.length := List.length_pos_iff.mpr hne
    rw [← List.length_pos_iff, List.length_take]
    omega
  · rw [List.length_take]
    omega
  · exact (List.take_append_drop _ _).symm
  · exact ⟨[], if_pos hnil, rfl⟩

/-- A record of two fragments, of which more is asked for than it has, and the record behind it. -/
theorem runReads_refines_overread : ∃ s s' s'',
    runReads byThrees 40 [.skiprecord, .getlong, .getbytes 9] ⟨create (fixBufSize 0),
        [[⟨false, [0, 0, 0, 7]⟩, ⟨true, [1, 2]⟩], [⟨true, [5, 6, 7]⟩]].flatMap fun q => q.flatMap Fragment.wire⟩ =
      some ([.skipped true, .long (some 7), .bytes none], s) ∧
    xdrrecSkiprecord byThrees 40 s = some (true, s') ∧ xdrrecGetbytes byThrees s' 2 = some (some [5, 6], s'') := by
  obtain ⟨s, hrun, hrecords⟩ := @runReads_refines _ byThrees id byThrees_supplies 0 0 (by decide)
    ([[⟨false, [0, 0, 0, 7]⟩, ⟨true, [1, 2]⟩], [⟨true, [5, 6, 7]⟩]].flatMap fun q => q.flatMap Fragment.wire)
    [.skiprecord, .getlong, .getbytes 9] 40 (by decide)
  have hwhole : ((runReads byThrees 40 [.skiprecord, .getlong, .getbytes 9] ⟨create (fixBufSize 0),
      [[⟨false, [0, 0, 0, 7]⟩, ⟨true, [1, 2]⟩], [⟨true, [5, 6, 7]⟩]].flatMap fun q => q.flatMap Fragment.wire⟩).bind
        fun r => (xdrrecSkiprecord byThrees 40 r.2).map fun t => (r.1, t.1)) =
      some ([.skipped true, .long (some 7), .bytes none], true) := by decide +kernel
  rw [hrun] at hwhole
  obtain ⟨⟨ok, s'⟩, hskip, heq⟩ := Option.map_eq_some_iff.mp hwhole
  obtain ⟨hanswers, rfl⟩ := Prod.mk.inj heq
  dsimp only at hanswers
  rw [hanswers] at hrun hrecords
  have hmarked : ∀ q ∈ [[Fragment.mk false [0, 0, 0, 7], ⟨true, [1, 2]⟩], [⟨true, [5, 6, 7]⟩]],
      Marked q ∧ ∀ f ∈ q, f.Fits := by
    intro q hq
    rcases List.mem_pair.mp hq with rfl | rfl
    · refine ⟨⟨[⟨false, [0, 0, 0, 7]⟩], [1, 2], rfl, by decide⟩, ?_⟩
      unfold Fragment.Fits
      decide
    · refine ⟨⟨[], [5, 6, 7], rfl, by decide⟩, ?_⟩
      unfold Fragment.Fits
      decide
  obtain ⟨bs, s'', hget, hbytes, hsome⟩ := hrecords _
    (fun q hq => ⟨(hmarked q hq).1.delimited, (hmarked q hq).2⟩) rfl s' hskip [⟨true, [5, 6, 7]⟩] rfl 2
  obtain ⟨b, rfl⟩ := Option.isSome_iff_exists.mp
    (hsome (hmarked _ (List.mem_cons_of_mem _ List.mem_cons_self)).1 (by decide))
  obtain ⟨_, rfl⟩ := hbytes b rfl
  exact ⟨s, s', s'', hrun, hskip, hget⟩

end RpcMt.XdrRec
