import RpcMt.XdrRecOut
import RpcMt.RecMarking

/-! What the encoding half of a record stream sends are the records that were put. The invariant says what
the bytes passed to `writeit` and the bytes in the buffer before the fragment under way are together:
complete records, and then the fragments of the record under way that have been sent. -/

namespace RpcMt

namespace XdrRec

/-! ### The buffer -/

section Overwrite

variable {buf bs : List Byte} {pos : Nat} (h : pos + bs.length ≤ buf.length)

include h

theorem length_before : (buf.take pos ++ bs).length = pos + bs.length := by
  rw [List.length_append, List.length_take]
  omega

theorem length_overwrite : (overwrite buf pos bs).length = buf.length := by
  simp only [overwrite, List.length_append, List.length_take, List.length_drop]
  omega

theorem take_overwrite_of_le {k : Nat} (hk : k ≤ pos) : (overwrite buf pos bs).take k = buf.take k := by
  have hlen : k ≤ (buf.take pos).length := by
    rw [List.length_take]
    omega
  rw [overwrite, List.append_assoc, List.take_append_of_le_length hlen, List.take_take, Nat.min_eq_left hk]

theorem take_overwrite : (overwrite buf pos bs).take (pos + bs.length) = buf.take pos ++ bs := by
  have hlen := length_before h
  rw [overwrite, List.take_append_of_le_length (Nat.le_of_eq hlen.symm), List.take_of_length_le (Nat.le_of_eq hlen)]

theorem drop_overwrite : (overwrite buf pos bs).drop (pos + bs.length) = buf.drop (pos + bs.length) := by
  rw [overwrite, ← length_before h, List.drop_left]

theorem store_eq {s : OutStream} (hs : s.buf = buf) : store pos bs s = .ok { s with buf := overwrite buf pos bs } := by
  rw [store, hs, if_neg (by omega)]

end Overwrite

open RecMarking

/-- The payload so far of the fragment that is being built. -/
def frag (s : OutStream) : List Byte := (s.buf.drop (s.fragHeader + 4)).take (s.outFinger - (s.fragHeader + 4))

/-- The buffer and the pointers into it. There is room behind the header of a fragment, so a fragment that
is sent because the buffer is full has bytes in it. -/
structure Bounds (s : OutStream) : Prop where
  size : s.buf.length = s.outBoundry
  aligned : 4 ∣ s.outBoundry
  least : 8 ≤ s.outBoundry
  most : s.outBoundry < 2 ^ 31
  room : s.fragHeader + 4 < s.outBoundry
  started : s.fragHeader + 4 ≤ s.outFinger
  finger : s.outFinger ≤ s.outBoundry
  word : 4 ∣ s.outFinger

/-- Every call of `writeit` has returned the number of bytes it was passed. -/
def Answered (writeit : Writeit) (written : List (List Byte)) : Prop :=
  ∀ before bytes after, written = before ++ bytes :: after → writeit before bytes = bytes.length

theorem Answered.of_snoc {writeit : Writeit} {written : List (List Byte)} {bytes : List Byte}
    (h : Answered writeit (written ++ [bytes])) :
    Answered writeit written ∧ writeit written bytes = bytes.length := by
  constructor
  · intro before bs after heq
    refine h before bs (after ++ [bytes]) ?_
    rw [heq, List.append_assoc, List.cons_append]
  · exact h written bytes [] rfl

/-- What the stream stands for: the records that are complete, and the bytes of the record under way. -/
def Carries (s : OutStream) (records : List (List Byte)) (record : List Byte) : Prop :=
  ∃ (done : List (List Fragment)) (sent : List Fragment),
    s.written.flatten ++ s.buf.take s.fragHeader =
        (done.flatMap fun r => r.flatMap Fragment.wire) ++ sent.flatMap Fragment.wire ∧
      (∀ r ∈ done, Marked r ∧ ∀ f ∈ r, f.Fits) ∧
      (∀ f ∈ sent, (f.last = false ∧ f.payload ≠ []) ∧ f.Fits) ∧
      done.map payload = records ∧ payload sent ++ frag s = record

structure Inv (writeit : Writeit) (s : OutStream) (records : List (List Byte)) (record : List Byte) : Prop where
  bounds : Bounds s
  carries : Answered writeit s.written → Carries s records record

namespace Bounds

variable {s : OutStream} (h : Bounds s)

include h

theorem length_frag : (frag s).length = s.outFinger - (s.fragHeader + 4) := by
  have hsize := h.size
  have hstarted := h.started
  have hfinger := h.finger
  rw [frag, List.length_take, List.length_drop]
  omega

theorem frag_fits (last : Bool) : Fragment.Fits ⟨last, frag s⟩ := by
  have hmost := h.most
  have hfinger := h.finger
  rw [Fragment.Fits, h.length_frag]
  omega

theorem frag_ne_nil (hfull : s.outFinger = s.outBoundry) : frag s ≠ [] := by
  intro hnil
  have hlen := h.length_frag
  have hroom := h.room
  rw [hnil, List.length_nil] at hlen
  omega

end Bounds

theorem lor_eormask {len : Nat} (h : len < 2 ^ 31) (eor : Bool) :
    (len ||| if eor then 2 ^ 31 else 0) = len + if eor then 2 ^ 31 else 0 := by
  cases eor with
  | false => exact Nat.or_zero len
  | true =>
      have hor := Nat.two_pow_add_eq_or_of_lt h 1
      rw [Nat.mul_one] at hor
      rw [if_pos rfl, Nat.lor_comm, ← hor, Nat.add_comm]

/-- The buffer with the header of the fragment under way filled in. -/
def closed (last : Bool) (s : OutStream) : List Byte :=
  overwrite s.buf s.fragHeader (htonl (Fragment.header ⟨last, frag s⟩))

namespace Bounds

variable {s : OutStream} (h : Bounds s) (last : Bool)

include h

theorem header_le : s.fragHeader + (htonl (Fragment.header ⟨last, frag s⟩)).length ≤ s.buf.length := by
  show s.fragHeader + 4 ≤ s.buf.length
  rw [h.size]
  exact Nat.le_of_lt h.room

theorem header_eq :
    (s.outFinger - s.fragHeader - 4 ||| if last then 2 ^ 31 else 0) = Fragment.header ⟨last, frag s⟩ := by
  have hlt : s.outFinger - s.fragHeader - 4 < 2 ^ 31 := by
    have hmost := h.most
    have hfinger := h.finger
    omega
  rw [lor_eormask hlt, Fragment.header, h.length_frag, Nat.sub_sub]

/-- What is in the buffer before the finger: what was there before the fragment, and the fragment. -/
theorem take_closed :
    (closed last s).take s.outFinger = s.buf.take s.fragHeader ++ Fragment.wire ⟨last, frag s⟩ := by
  have htake : (closed last s).take (s.fragHeader + 4) =
      s.buf.take s.fragHeader ++ htonl (Fragment.header ⟨last, frag s⟩) := take_overwrite (h.header_le last)
  have hdrop : (closed last s).drop (s.fragHeader + 4) = s.buf.drop (s.fragHeader + 4) :=
    drop_overwrite (h.header_le last)
  have hsplit : s.outFinger = s.fragHeader + 4 + (s.outFinger - (s.fragHeader + 4)) := by
    have hstarted := h.started
    omega
  calc (closed last s).take s.outFinger
    _ = (closed last s).take (s.fragHeader + 4) ++
        ((closed last s).drop (s.fragHeader + 4)).take (s.outFinger - (s.fragHeader + 4)) := by
      conv_lhs => rw [hsplit]
      exact List.take_add
    _ = s.buf.take s.fragHeader ++ htonl (Fragment.header ⟨last, frag s⟩) ++ frag s := by
      rw [htake, hdrop]
      rfl
    _ = s.buf.take s.fragHeader ++ Fragment.wire ⟨last, frag s⟩ := List.append_assoc _ _ _

theorem length_closed : (closed last s).length = s.buf.length := length_overwrite (h.header_le last)

theorem store_closed :
    store s.fragHeader (htonl (s.outFinger - s.fragHeader - 4 ||| if last then 2 ^ 31 else 0)) s =
      .ok { s with buf := closed last s } := by
  rw [h.header_eq last, store_eq (h.header_le last) rfl]
  rfl

/-- What `flush_out` passes to `writeit`, and the stream after it. -/
theorem flushOut_eq (writeit : Writeit) (eor : Bool) :
    flushOut writeit eor s =
      let bytes := s.buf.take s.fragHeader ++ Fragment.wire ⟨eor, frag s⟩
      let s' := { s with buf := closed eor s, written := s.written ++ [bytes] }
      if writeit s.written bytes ≠ bytes.length then .ok (false, s')
      else .ok (true, { s' with fragHeader := 0, outFinger := 4 }) := by
  have hlen : (s.buf.take s.fragHeader ++ Fragment.wire ⟨eor, frag s⟩).length = s.outFinger := by
    have hsize := h.size
    have hfinger := h.finger
    rw [← h.take_closed eor, List.length_take, h.length_closed eor]
    omega
  have hint : castInt 32 s.outFinger = s.outFinger := by
    have hmost := h.most
    have hfinger := h.finger
    unfold castInt
    omega
  unfold flushOut
  dsimp only
  rw [h.store_closed eor]
  show (if writeit s.written ((closed eor s).take s.outFinger) ≠ castInt 32 s.outFinger then _ else _) = _
  rw [h.take_closed eor, hlen, hint]
  rfl

end Bounds

/-! ### What a fragment that ends does to the records -/

namespace Carries

variable {s s' : OutStream} {records : List (List Byte)} {record : List Byte} (h : Carries s records record)

include h

/-- A fragment goes out in the middle of its record. -/
theorem sent (hb : Bounds s) (hne : frag s ≠ []) (hempty : frag s' = [])
    (hwire : s'.written.flatten ++ s'.buf.take s'.fragHeader =
      s.written.flatten ++ s.buf.take s.fragHeader ++ Fragment.wire ⟨false, frag s⟩) :
    Carries s' records record := by
  obtain ⟨done, sent, heq, hdone, hsent, rfl, rfl⟩ := h
  refine ⟨done, sent ++ [⟨false, frag s⟩], ?_, hdone, ?_, rfl, ?_⟩
  · rw [hwire, heq, List.flatMap_append, List.flatMap_singleton, List.append_assoc]
  · intro f hf
    rcases List.mem_append.mp hf with hf | hf
    · exact hsent f hf
    · rw [List.mem_singleton.mp hf]
      exact ⟨⟨rfl, hne⟩, hb.frag_fits false⟩
  · rw [hempty, List.append_nil, payload, List.flatMap_append, List.flatMap_singleton]
    rfl

/-- The last fragment of a record is closed. -/
theorem ended (hb : Bounds s) (hempty : frag s' = [])
    (hwire : s'.written.flatten ++ s'.buf.take s'.fragHeader =
      s.written.flatten ++ s.buf.take s.fragHeader ++ Fragment.wire ⟨true, frag s⟩) :
    Carries s' (records ++ [record]) [] := by
  obtain ⟨done, sent, heq, hdone, hsent, rfl, rfl⟩ := h
  refine ⟨done ++ [sent ++ [⟨true, frag s⟩]], [], ?_, ?_, fun f hf => absurd hf List.not_mem_nil, ?_, ?_⟩
  · rw [hwire, heq, List.flatMap_append, List.flatMap_singleton, List.flatMap_append, List.flatMap_singleton,
      List.flatMap_nil, List.append_nil, List.append_assoc]
  · intro r hr
    rcases List.mem_append.mp hr with hr | hr
    · exact hdone r hr
    · rw [List.mem_singleton.mp hr]
      refine ⟨⟨sent, frag s, rfl, fun f hf => (hsent f hf).1⟩, fun f hf => ?_⟩
      rcases List.mem_append.mp hf with hf | hf
      · exact (hsent f hf).2
      · rw [List.mem_singleton.mp hf]
        exact hb.frag_fits true
  · rw [List.map_append, List.map_singleton, payload, List.flatMap_append, List.flatMap_singleton]
    rfl
  · rw [hempty]
    rfl

/-- Bytes are added to the fragment under way. -/
theorem grown {bs : List Byte} (hwritten : s'.written = s.written)
    (hhead : s'.buf.take s'.fragHeader = s.buf.take s.fragHeader) (hfrag : frag s' = frag s ++ bs) :
    Carries s' records (record ++ bs) := by
  obtain ⟨done, sent, heq, hdone, hsent, rfl, rfl⟩ := h
  refine ⟨done, sent, ?_, hdone, hsent, rfl, ?_⟩
  · rw [hwritten, hhead, heq]
  · rw [hfrag, List.append_assoc]

end Carries

/-! ### Every call keeps the invariant -/

section Step

variable {writeit : Writeit} {s : OutStream} {records : List (List Byte)} {record : List Byte}

namespace Inv

theorem setFragSent (h : Inv writeit s records record) (b : Bool) :
    Inv writeit { s with fragSent := b } records record := by
  obtain ⟨⟨hsize, haligned, hleast, hmost, hroom, hstarted, hfinger, hword⟩, hcarries⟩ := h
  exact ⟨⟨hsize, haligned, hleast, hmost, hroom, hstarted, hfinger, hword⟩, hcarries⟩

/-- `flush_out` returns, and unless `writeit` has failed the buffer is empty and the fragment is out. -/
theorem flushOut (h : Inv writeit s records record) (eor : Bool) :
    ∃ ok s', flushOut writeit eor s = .ok (ok, s') ∧ Bounds s' ∧ s'.outBoundry = s.outBoundry ∧
      (ok = true → s'.outFinger = 4) ∧
      (Answered writeit s'.written → ok = true ∧ s'.fragHeader = 0 ∧ frag s' = [] ∧ Carries s records record ∧
        s'.written.flatten ++ s'.buf.take s'.fragHeader =
          s.written.flatten ++ s.buf.take s.fragHeader ++ Fragment.wire ⟨eor, frag s⟩) := by
  have hb := h.bounds
  have hclosed : (closed eor s).length = s.outBoundry := (hb.length_closed eor).trans hb.size
  rw [hb.flushOut_eq writeit eor]
  dsimp only
  split
  · rename_i hfail
    refine ⟨false, _, rfl, ?_, rfl, fun hok => absurd hok Bool.false_ne_true, fun hans => ?_⟩
    · exact ⟨hclosed, hb.aligned, hb.least, hb.most, hb.room, hb.started, hb.finger, hb.word⟩
    · exact absurd hans.of_snoc.2 hfail
  · refine ⟨true, _, rfl, ?_, rfl, fun _ => rfl, fun hans => ?_⟩
    · have hleast := hb.least
      refine ⟨hclosed, hb.aligned, hb.least, hb.most, ?_, Nat.le_refl 4, ?_, Nat.dvd_refl 4⟩
      · show 0 + 4 < s.outBoundry
        omega
      · show 4 ≤ s.outBoundry
        omega
    · refine ⟨rfl, rfl, rfl, h.carries hans.of_snoc.1, ?_⟩
      show (s.written ++ [_]).flatten ++ [] = _
      rw [List.flatten_append, List.flatten_singleton, List.append_nil, List.append_assoc]

/-- A full buffer is sent in the middle of a record. -/
theorem flush_sent (h : Inv writeit s records record) (hfull : s.outFinger = s.outBoundry) :
    ∃ ok s', XdrRec.flushOut writeit false { s with fragSent := true } = .ok (ok, s') ∧
      Inv writeit s' records record ∧ s'.outBoundry = s.outBoundry ∧ (ok = true → s'.outFinger = 4) ∧
      (ok = false → ¬Answered writeit s'.written) := by
  have hset := h.setFragSent true
  obtain ⟨ok, s', heq, hb, hboundry, hok, hans⟩ := hset.flushOut false
  refine ⟨ok, s', heq, ⟨hb, fun ha => ?_⟩, hboundry, hok, fun hfalse ha => ?_⟩
  · obtain ⟨_, _, hempty, hcarries, hwire⟩ := hans ha
    exact hcarries.sent hset.bounds (hset.bounds.frag_ne_nil hfull) hempty hwire
  · rw [hfalse] at hans
    exact Bool.false_ne_true (hans ha).1

/-- Bytes for which there is room are put at the finger. -/
theorem putAt (h : Inv writeit s records record) {bs : List Byte}
    (hroom : s.outFinger + bs.length ≤ s.outBoundry) (hword : 4 ∣ bs.length) :
    store s.outFinger bs s = .ok { s with buf := overwrite s.buf s.outFinger bs } ∧
      Inv writeit { s with buf := overwrite s.buf s.outFinger bs, outFinger := s.outFinger + bs.length } records
        (record ++ bs) := by
  have hb := h.bounds
  have hlen : s.outFinger + bs.length ≤ s.buf.length := by
    rw [hb.size]
    exact hroom
  have hstarted := hb.started
  refine ⟨store_eq hlen rfl, ⟨?_, hb.aligned, hb.least, hb.most, hb.room, ?_, hroom, ?_⟩, fun hans => ?_⟩
  · exact (length_overwrite hlen).trans hb.size
  · exact Nat.le_trans hstarted (Nat.le_add_right _ _)
  · exact Nat.dvd_add hb.word hword
  · refine (h.carries hans).grown rfl ?_ ?_
    · refine take_overwrite_of_le hlen ?_
      show s.fragHeader ≤ s.outFinger
      omega
    · calc ((overwrite s.buf s.outFinger bs).drop (s.fragHeader + 4)).take
            (s.outFinger + bs.length - (s.fragHeader + 4))
        _ = ((overwrite s.buf s.outFinger bs).take (s.outFinger + bs.length)).drop (s.fragHeader + 4) :=
          List.drop_take.symm
        _ = (s.buf.take s.outFinger ++ bs).drop (s.fragHeader + 4) := by rw [take_overwrite hlen]
        _ = (s.buf.take s.outFinger).drop (s.fragHeader + 4) ++ bs := by
          refine List.drop_append_of_le_length ?_
          rw [List.length_take]
          omega
        _ = frag s ++ bs := by rw [List.drop_take, frag]

theorem putAtFinger (h : Inv writeit s records record) {bs : List Byte} (hbs : bs.length = 4)
    (hroom : s.outFinger + 4 ≤ s.outBoundry) :
    ∃ s', putAtFinger bs s = .ok (true, s') ∧ Inv writeit s' records (record ++ bs) := by
  rw [← hbs] at hroom
  obtain ⟨hstore, hinv⟩ := h.putAt hroom (by rw [hbs])
  rw [hbs] at hinv
  refine ⟨_, ?_, hinv⟩
  unfold XdrRec.putAtFinger
  rw [hstore]
  rfl

theorem putWord (h : Inv writeit s records record) {bs : List Byte} (hbs : bs.length = 4) :
    ∃ ok s', putWord writeit bs s = .ok (ok, s') ∧ Inv writeit s' records (record ++ bs) := by
  unfold XdrRec.putWord
  by_cases hfull : s.outBoundry < s.outFinger + 4
  · have hend : s.outFinger = s.outBoundry := by
      have hfinger := h.bounds.finger
      have hword := h.bounds.word
      have haligned := h.bounds.aligned
      omega
    obtain ⟨ok, s', heq, hinv, hboundry, hok, hrefused⟩ := h.flush_sent hend
    rw [if_pos hfull, heq]
    cases ok with
    | false => exact ⟨false, s', rfl, hinv.bounds, fun hans => absurd hans (hrefused rfl)⟩
    | true =>
        have hroom : s'.outFinger + 4 ≤ s'.outBoundry := by
          rw [hok rfl]
          exact hinv.bounds.least
        obtain ⟨s'', hput, hinv'⟩ := hinv.putAtFinger hbs hroom
        exact ⟨true, s'', hput, hinv'⟩
  · rw [if_neg hfull]
    obtain ⟨s', hput, hinv⟩ := h.putAtFinger hbs (Nat.le_of_not_lt hfull)
    exact ⟨true, s', hput, hinv⟩

/-- The loop of `xdrrec_putbytes`. A turn that starts with a full buffer only sends it. -/
theorem putbytesLoop {turns : Nat} {addr : List Byte} (h : Inv writeit s records record)
    (hword : 4 ∣ addr.length) (hturns : addr.length + (if s.outFinger = s.outBoundry then 1 else 0) < turns) :
    ∃ ok s', putbytesLoop writeit turns addr s = .ok (ok, s') ∧ Inv writeit s' records (record ++ addr) := by
  induction turns generalizing s addr record with
  | zero => exact absurd hturns (Nat.not_lt_zero _)
  | succ turns ih =>
      unfold XdrRec.putbytesLoop
      by_cases hnil : addr = []
      · rw [if_pos hnil]
        refine ⟨true, s, rfl, ?_⟩
        rw [hnil, List.append_nil]
        exact h
      rw [if_neg hnil]
      have hfinger := h.bounds.finger
      have hb := h.bounds.word
      have hB := h.bounds.aligned
      have hpos : 0 < addr.length := List.length_pos_iff.mpr hnil
      obtain ⟨current, hcurrent⟩ : ∃ c, c = min addr.length (s.outBoundry - s.outFinger) := ⟨_, rfl⟩
      have htaken : (addr.take current).length = current := by
        rw [List.length_take]
        omega
      have hleft : (addr.drop current).length = addr.length - current := List.length_drop
      have hroom : s.outFinger + (addr.take current).length ≤ s.outBoundry := by omega
      have hwhole : 4 ∣ (addr.take current).length := by omega
      obtain ⟨hstore, hinv⟩ := h.putAt hroom hwhole
      rw [htaken] at hinv
      have happend : record ++ addr = record ++ addr.take current ++ addr.drop current := by
        rw [List.append_assoc, List.take_append_drop]
      dsimp only
      rw [← hcurrent, hstore, happend]
      show ∃ ok s', (if s.outFinger + current = s.outBoundry ∧ addr.drop current ≠ [] then _ else _) = _ ∧ _
      by_cases hsend : s.outFinger + current = s.outBoundry ∧ addr.drop current ≠ []
      · obtain ⟨ok, s', heq, hinv', hboundry, hok, hrefused⟩ := hinv.flush_sent hsend.1
        rw [if_pos hsend]
        dsimp only at heq ⊢
        rw [heq]
        cases ok with
        | false => exact ⟨false, s', rfl, hinv'.bounds, fun hans => absurd hans (hrefused rfl)⟩
        | true =>
            have hempty : ¬s'.outFinger = s'.outBoundry := by
              have hleast := hinv'.bounds.least
              rw [hok rfl]
              omega
            refine ih hinv' (by omega) ?_
            rw [if_neg hempty, hleft]
            split at hturns
            · omega
            · omega
      · -- nothing is left: the bytes all had room
        have hlast : addr.length ≤ current := by
          by_contra hlt
          refine hsend ⟨by omega, ?_⟩
          intro hdrop
          rw [hdrop, List.length_nil] at hleft
          omega
        rw [if_neg hsend]
        refine ih hinv (by omega) ?_
        split
        · omega
        · omega

theorem xdrrecPutbytes (h : Inv writeit s records record) {bs : List Byte} (hword : 4 ∣ bs.length) :
    ∃ ok s', xdrrecPutbytes writeit bs s = .ok (ok, s') ∧ Inv writeit s' records (record ++ bs) := by
  refine h.putbytesLoop hword ?_
  split
  · omega
  · omega

/-- Every call puts its bytes into the record under way, or, if it gives NULL, nothing. -/
theorem putCall (h : Inv writeit s records record) (call : PutCall) (hword : 4 ∣ call.bytes.length) :
    ∃ put s', call.run writeit s = .ok (put, s') ∧ Inv writeit s' records (record ++ put) := by
  cases call with
  | putlong l =>
      obtain ⟨ok, s', heq, hinv⟩ := h.putWord (length_bytesOf l)
      have hput : xdrrecPutlong writeit l s = .ok (ok, s') := heq
      refine ⟨bytesOf l, s', ?_, hinv⟩
      simp only [PutCall.run]
      rw [hput]
      rfl
  | putint32 i =>
      obtain ⟨ok, s', heq, hinv⟩ := h.putWord (length_bytesOf i)
      have hput : xdrrecPutint32 writeit i s = .ok (ok, s') := heq
      refine ⟨bytesOf i, s', ?_, hinv⟩
      simp only [PutCall.run]
      rw [hput]
      rfl
  | putbytes bs =>
      have hbs : 4 ∣ bs.length := hword
      obtain ⟨ok, s', hput, hinv⟩ := h.xdrrecPutbytes hbs
      refine ⟨bs, s', ?_, hinv⟩
      simp only [PutCall.run]
      rw [hput]
      rfl
  | inline bs =>
      simp only [PutCall.run, xdrrecInline]
      by_cases hroom : s.outFinger + bs.length ≤ s.outBoundry
      · have hlen : s.outFinger + bs.length ≤ s.buf.length := by
          rw [h.bounds.size]
          exact hroom
        have hstore : store s.outFinger bs { s with outFinger := s.outFinger + bs.length } =
            .ok { s with buf := overwrite s.buf s.outFinger bs, outFinger := s.outFinger + bs.length } :=
          store_eq hlen rfl
        rw [if_pos hroom]
        refine ⟨bs, _, ?_, (h.putAt hroom hword).2⟩
        dsimp only
        rw [hstore]
        rfl
      · rw [if_neg hroom]
        refine ⟨[], s, rfl, ?_⟩
        rw [List.append_nil]
        exact h

/-- The end of a record. One that is sent leaves nothing in the buffer. -/
theorem xdrrecEndofrecord (h : Inv writeit s records record) (sendnow : Bool) :
    ∃ ok s', xdrrecEndofrecord writeit sendnow s = .ok (ok, s') ∧ Inv writeit s' (records ++ [record]) [] ∧
      (sendnow = true → Answered writeit s'.written → s'.fragHeader = 0) := by
  unfold XdrRec.xdrrecEndofrecord
  by_cases hflush : (sendnow || s.fragSent || decide (s.outBoundry ≤ s.outFinger + 4)) = true
  · rw [if_pos hflush]
    have hset := h.setFragSent false
    obtain ⟨ok, s', heq, hb, _, _, hans⟩ := hset.flushOut true
    refine ⟨ok, s', heq, ⟨hb, fun ha => ?_⟩, fun _ ha => (hans ha).2.1⟩
    obtain ⟨_, _, hempty, hcarries, hwire⟩ := hans ha
    exact hcarries.ended hset.bounds hempty hwire
  · rw [if_neg hflush]
    have hb := h.bounds
    simp only [Bool.or_eq_true, decide_eq_true_eq, not_or] at hflush
    obtain ⟨⟨hnow, _⟩, hroom⟩ := hflush
    have hclosed : (closed true s).length = s.outBoundry := (hb.length_closed true).trans hb.size
    have hstore := hb.store_closed true
    rw [if_pos rfl] at hstore
    dsimp only
    rw [hstore]
    refine ⟨true, _, rfl, ⟨?_, fun hans => ?_⟩, fun hsend => absurd hsend hnow⟩
    · have hword := hb.word
      refine ⟨hclosed, hb.aligned, hb.least, hb.most, ?_, Nat.le_refl _, ?_, ?_⟩
      · exact Nat.lt_of_not_le hroom
      · exact Nat.le_of_not_le hroom
      · exact Nat.dvd_add hb.word (Nat.dvd_refl 4)
    · refine (h.carries hans).ended hb ?_ ?_
      · rw [frag, Nat.sub_self, List.take_zero]
      · show s.written.flatten ++ (closed true s).take s.outFinger = _
        rw [hb.take_closed true, List.append_assoc]

theorem runCalls {calls : List PutCall} (h : Inv writeit s records record)
    (hwords : ∀ call ∈ calls, 4 ∣ call.bytes.length) :
    ∃ puts s', runCalls writeit calls s = .ok (puts, s') ∧ Inv writeit s' records (record ++ puts) := by
  induction calls generalizing s record with
  | nil =>
      refine ⟨[], s, rfl, ?_⟩
      rw [List.append_nil]
      exact h
  | cons call calls ih =>
      obtain ⟨put, s', hcall, hinv⟩ := h.putCall call (hwords call List.mem_cons_self)
      obtain ⟨puts, s'', hcalls, hinv'⟩ := ih hinv fun c hc => hwords c (List.mem_cons_of_mem call hc)
      refine ⟨put ++ puts, s'', ?_, ?_⟩
      · unfold XdrRec.runCalls
        rw [hcall]
        dsimp only [bind, Except.bind]
        rw [hcalls]
        rfl
      · rw [← List.append_assoc]
        exact hinv'

/-- Records, one after the other. If the last one is sent, nothing of them is left in the buffer. -/
theorem runRecords {calls : List (List PutCall × Bool)} (h : Inv writeit s records [])
    (hwords : ∀ r ∈ calls, ∀ call ∈ r.1, 4 ∣ call.bytes.length)
    (hsent : Answered writeit s.written → calls = [] → s.fragHeader = 0)
    (hlast : ∀ r ∈ calls.getLast?, r.2 = true) :
    ∃ puts s', runRecords writeit calls s = .ok (puts, s') ∧ Inv writeit s' (records ++ puts) [] ∧
      (Answered writeit s'.written → s'.fragHeader = 0) := by
  induction calls generalizing s records with
  | nil =>
      refine ⟨[], s, rfl, ?_, fun hans => hsent hans rfl⟩
      rw [List.append_nil]
      exact h
  | cons r calls ih =>
      obtain ⟨put, s', hput, hinv⟩ := h.runCalls (hwords r List.mem_cons_self)
      obtain ⟨ok, s'', hend, hinv', hnow⟩ := hinv.xdrrecEndofrecord r.2
      have hsent' : Answered writeit s''.written → calls = [] → s''.fragHeader = 0 := by
        intro hans hnil
        refine hnow (hlast r ?_) hans
        rw [hnil]
        rfl
      have hlast' : ∀ q ∈ calls.getLast?, q.2 = true := by
        intro q hq
        refine hlast q ?_
        rw [List.getLast?_cons]
        rw [Option.mem_def] at hq
        rw [hq]
        rfl
      obtain ⟨puts, s₃, hrun, hinv₃, hsent₃⟩ :=
        ih hinv' (fun q hq => hwords q (List.mem_cons_of_mem r hq)) hsent' hlast'
      refine ⟨put :: puts, s₃, ?_, ?_, hsent₃⟩
      · unfold XdrRec.runRecords
        rw [hput]
        dsimp only [bind, Except.bind]
        rw [hend]
        dsimp only
        rw [hrun]
        rfl
      · rw [List.append_assoc] at hinv₃
        exact hinv₃

end Inv

end Step

theorem Bounds.createOut {sendsize recvsize : Nat} (hsize : sendsize + recvsize + 4 < 2 ^ 31)
    (garbage : Nat → Byte) : Bounds (createOut sendsize garbage) := by
  have hfix : 4 ∣ fixBufSize sendsize ∧ 8 ≤ fixBufSize sendsize ∧ fixBufSize sendsize < 2 ^ 31 := by
    unfold fixBufSize uintRange
    dsimp only
    split
    · omega
    · omega
  obtain ⟨haligned, hleast, hmost⟩ := hfix
  refine ⟨?_, haligned, hleast, hmost, ?_, Nat.le_refl 4, ?_, Nat.dvd_refl 4⟩
  · show ((List.range (fixBufSize sendsize)).map garbage).length = fixBufSize sendsize
    rw [List.length_map, List.length_range]
  · show 0 + 4 < fixBufSize sendsize
    omega
  · show 4 ≤ fixBufSize sendsize
    omega

/-- Whatever records are put, by calls whose lengths are whole words, batched and flushed as it may be:
unless `writeit` fails, what it was passed is the records that were put, marked as records are. -/
theorem runRecords_parses {sendsize recvsize : Nat} (hsize : sendsize + recvsize + 4 < 2 ^ 31)
    (garbage : Nat → Byte) (writeit : Writeit) {calls : List (List PutCall × Bool)}
    (hwords : ∀ r ∈ calls, ∀ call ∈ r.1, 4 ∣ call.bytes.length) (hlast : ∀ r ∈ calls.getLast?, r.2 = true) :
    ∃ puts s, runRecords writeit calls (createOut sendsize garbage) = .ok (puts, s) ∧
      (Answered writeit s.written → ∃ rs, parseRecords s.written.flatten = some rs ∧
        rs.map payload = puts ∧ ∀ r ∈ rs, Marked r) := by
  have hstart : Inv writeit (createOut sendsize garbage) [] [] :=
    ⟨Bounds.createOut hsize garbage, fun _ => ⟨[], [], rfl, fun r hr => absurd hr List.not_mem_nil,
      fun f hf => absurd hf List.not_mem_nil, rfl, rfl⟩⟩
  obtain ⟨puts, s, hrun, hinv, hsent⟩ := hstart.runRecords hwords (fun _ _ => rfl) hlast
  refine ⟨puts, s, hrun, fun hans => ?_⟩
  obtain ⟨done, sent, hwire, hdone, hopen, hputs, hempty⟩ := hinv.carries hans
  rw [List.append_eq_nil_iff] at hempty
  have hnone : sent = [] := by
    rw [List.eq_nil_iff_forall_not_mem]
    intro f hf
    exact (hopen f hf).1.2 (List.flatMap_eq_nil_iff.mp hempty.1 f hf)
  rw [hsent hans, hnone, List.take_zero, List.append_nil, List.flatMap_nil, List.append_nil] at hwire
  refine ⟨done, ?_, hputs, fun r hr => (hdone r hr).1⟩
  rw [hwire]
  exact parseRecords_wire (fun r hr => (hdone r hr).1) fun r hr => (hdone r hr).2

/-- A short record that is batched, one that fills the buffer of 100 bytes twice, and an empty one. -/
theorem runRecords_parses_batched : ∃ s rs,
    runRecords (fun _ bytes => bytes.length)
      [([.putlong 7], false), ([.putbytes (List.replicate 180 1), .inline [1, 2, 3, 4]], false), ([], true)]
      (createOut 100 fun _ => 0) = .ok ([bytesOf 7, List.replicate 180 1 ++ [1, 2, 3, 4], []], s) ∧
    parseRecords s.written.flatten = some rs ∧
    rs.map payload = [bytesOf 7, List.replicate 180 1 ++ [1, 2, 3, 4], []] := by
  have hrun : (runRecords (fun _ bytes => bytes.length)
      [([.putlong 7], false), ([.putbytes (List.replicate 180 1), .inline [1, 2, 3, 4]], false), ([], true)]
      (createOut 100 fun _ => 0)).toOption.map (fun r => r.1) =
        some [bytesOf 7, List.replicate 180 1 ++ [1, 2, 3, 4], []] := by decide +kernel
  obtain ⟨puts, s, heq, hparses⟩ :=
    @runRecords_parses 100 100 (by decide) (fun _ => 0) (fun _ bytes => bytes.length)
      [([.putlong 7], false), ([.putbytes (List.replicate 180 1), .inline [1, 2, 3, 4]], false), ([], true)]
      (by decide +kernel) (by decide)
  rw [heq] at hrun
  cases Option.some.inj hrun
  obtain ⟨rs, hrs, hpayload, _⟩ := hparses fun _ _ _ _ => rfl
  exact ⟨s, rs, heq, hrs, hpayload⟩

end XdrRec

end RpcMt
