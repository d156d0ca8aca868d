import Mathlib.Data.List.Forall2
import RpcMt.RecDecode
import RpcMt.XdrRoundTrip

/-! From one end of a connection to the other. Values are encoded into records, the records are cut into
fragments and flushed as the sender's buffer has it, and the bytes arrive in chunks of any size. If every call of
the sender has returned TRUE, the receiver that decodes the records gets the values. -/

namespace RpcMt.XdrRec

open RecMarking

/-! ### A sender that is told TRUE -/

theorem answered_nil (writeit : Writeit) : Answered writeit [] := by
  intro before bytes after heq
  cases before with
  | nil => cases heq
  | cons b before => cases heq

theorem Answered.snoc {writeit : Writeit} {written : List (List Byte)} {bytes : List Byte}
    (h : Answered writeit written) (hlast : writeit written bytes = bytes.length) :
    Answered writeit (written ++ [bytes]) := by
  intro before bs after heq
  rcases List.eq_nil_or_concat after with rfl | ⟨init, last, rfl⟩
  · obtain ⟨rfl, hbs⟩ := List.append_inj' heq rfl
    cases hbs
    exact hlast
  · have hsplit : written ++ [bytes] = (before ++ bs :: init) ++ [last] := by
      rw [heq, List.append_assoc, List.cons_append, List.concat_eq_append]
    exact h before bs init (List.append_inj' hsplit rfl).1

/-- The calls of `writeit` behind a status: all were answered in full, or all but the last one. -/
def Told (writeit : Writeit) (ok : Bool) (written : List (List Byte)) : Prop :=
  if ok then Answered writeit written
  else ∃ before last, written = before ++ [last] ∧ Answered writeit before ∧ writeit before last ≠ last.length

section Sender

variable {writeit : Writeit} {s s' : OutStream} {ok : Bool}

theorem flushOut_ok {eor : Bool} (h : flushOut writeit eor s = .ok (ok, s')) :
    ∃ bytes, s'.written = s.written ++ [bytes] ∧
      (ok = true ↔ writeit s.written bytes = castInt 32 s.outFinger) ∧
      bytes.length = min s.outFinger s.buf.length ∧ s'.outBoundry = s.outBoundry := by
  obtain ⟨word, hword⟩ : ∃ w, w = htonl (s.outFinger - s.fragHeader - 4 ||| if eor then 2 ^ 31 else 0) := ⟨_, rfl⟩
  unfold flushOut at h
  dsimp only at h
  rw [← hword] at h
  by_cases hroom : s.fragHeader + word.length ≤ s.buf.length
  · have hlen : ((overwrite s.buf s.fragHeader word).take s.outFinger).length = min s.outFinger s.buf.length := by
      rw [List.length_take, length_overwrite hroom]
    rw [store_eq hroom rfl] at h
    dsimp only [bind, Except.bind] at h
    split at h
    · rename_i hanswer
      cases h
      exact ⟨_, rfl, ⟨fun hok => absurd hok Bool.false_ne_true, fun heq => absurd heq hanswer⟩, hlen, rfl⟩
    · rename_i hanswer
      cases h
      exact ⟨_, rfl, ⟨fun _ => not_not.mp hanswer, fun _ => rfl⟩, hlen, rfl⟩
  · have hstore : store s.fragHeader word s = .error .badPointer := if_pos (Nat.lt_of_not_le hroom)
    rw [hstore] at h
    cases h

/-- A flush tells what `writeit` answers. -/
theorem Pointers.flush_told (h : Pointers s) (hmost : s.outBoundry < 2 ^ 31) {eor : Bool}
    (hflush : flushOut writeit eor s = .ok (ok, s')) (hans : Answered writeit s.written) :
    Told writeit ok s'.written ∧ s'.outBoundry = s.outBoundry := by
  obtain ⟨bytes, hwritten, hanswer, hlen, hboundry⟩ := flushOut_ok hflush
  have hint : castInt 32 s.outFinger = bytes.length := by
    have hsize := h.size
    have hfinger := h.finger
    rw [hlen, Nat.min_eq_left (by omega)]
    unfold castInt
    omega
  rw [hint] at hanswer
  rw [hwritten]
  refine ⟨?_, hboundry⟩
  cases ok with
  | false => exact ⟨s.written, bytes, rfl, hans, fun heq => absurd (hanswer.mpr heq) Bool.false_ne_true⟩
  | true => exact hans.snoc (hanswer.mp rfl)

theorem Pointers.putbytes_told {addr : List Byte} (h : Pointers s) (hmost : s.outBoundry < 2 ^ 31)
    (hput : xdrrecPutbytes writeit addr s = .ok (ok, s')) (hans : Answered writeit s.written) :
    Told writeit ok s'.written := by
  induction hn : needed s addr using Nat.strong_induction_on generalizing addr s with
  | _ n ih =>
      by_cases hnil : addr = []
      · rw [hnil] at hput
        cases hput
        exact hans
      rw [h.putbytes hnil] at hput
      split at hput
      · cases hput
        exact hans
      · rename_i hleft
        have hsent := (h.put (h.filled addr)).sent true
        obtain ⟨ok₁, s₁, hflush, hs₁, hempty⟩ := hsent.flush writeit false
        obtain ⟨htold, hboundry⟩ := hsent.flush_told hmost hflush hans
        rw [hflush] at hput
        cases ok₁ with
        | false =>
            cases hput
            exact htold
        | true =>
            have hmost₁ : s₁.outBoundry < 2 ^ 31 := hboundry ▸ hmost
            exact ih _ (hn ▸ h.needed_lt hs₁ (hempty rfl) hleft) hs₁ hmost₁ hput htold rfl

theorem Pointers.endofrecord_told (h : Pointers s) (hmost : s.outBoundry < 2 ^ 31) {sendnow : Bool}
    (hend : xdrrecEndofrecord writeit sendnow s = .ok (ok, s')) (hans : Answered writeit s.written) :
    Told writeit ok s'.written := by
  have hroom : s.fragHeader + 4 ≤ s.buf.length := by
    have hsize := h.size
    have hstarted := h.started
    have hfinger := h.finger
    omega
  unfold xdrrecEndofrecord at hend
  split at hend
  · exact ((h.sent false).flush_told hmost hend hans).1
  · dsimp only at hend
    rw [@store_eq s.buf _ _ hroom s rfl] at hend
    cases hend
    exact hans

theorem Inv.sendBytes_returns {records : List (List Byte × Bool)} (hwords : ∀ r ∈ records, 4 ∣ r.1.length)
    {done : List (List Byte)} (h : Inv writeit s done []) : ∃ ok s', sendBytes writeit records s = .ok (ok, s') := by
  induction records generalizing s done with
  | nil => exact ⟨true, s, rfl⟩
  | cons r records ih =>
      obtain ⟨bs, sendnow⟩ := r
      obtain ⟨ok, s₁, hput, hinv₁⟩ := h.xdrrecPutbytes (hwords _ List.mem_cons_self)
      obtain ⟨ok', s₂, hend, hinv₂, _⟩ := hinv₁.xdrrecEndofrecord sendnow
      rw [sendBytes, hput]
      cases ok with
      | false => exact ⟨false, s₁, rfl⟩
      | true =>
          show ∃ ok s', andThen (XdrRec.xdrrecEndofrecord writeit sendnow s₁) (sendBytes writeit records) = .ok (ok, s')
          rw [hend]
          cases ok' with
          | false => exact ⟨false, s₂, rfl⟩
          | true => exact ih (fun q hq => hwords q (List.mem_cons_of_mem _ hq)) hinv₂

/-- Records that are sent. With TRUE the stream carries them, and if the last one is sent at once, nothing is left
in the buffer. -/
theorem Inv.sendBytes {records : List (List Byte × Bool)} (hwords : ∀ r ∈ records, 4 ∣ r.1.length)
    {done : List (List Byte)} (h : Inv writeit s done []) (hans : Answered writeit s.written)
    (hsent : records = [] → s.fragHeader = 0) (hlast : ∀ r ∈ records.getLast?, r.2 = true)
    (hsend : sendBytes writeit records s = .ok (ok, s')) :
    Told writeit ok s'.written ∧
      (ok = true → Inv writeit s' (done ++ records.map Prod.fst) [] ∧ s'.fragHeader = 0) := by
  induction records generalizing s done with
  | nil =>
      cases hsend
      rw [List.map_nil, List.append_nil]
      exact ⟨hans, fun _ => ⟨h, hsent rfl⟩⟩
  | cons r records ih =>
      obtain ⟨bs, sendnow⟩ := r
      obtain ⟨ok₁, s₁, hput, hinv₁⟩ := h.xdrrecPutbytes (hwords _ List.mem_cons_self)
      obtain ⟨ok₂, s₂, hend, hinv₂, hnow⟩ := hinv₁.xdrrecEndofrecord sendnow
      have htold₁ := h.bounds.pointers.putbytes_told h.bounds.most hput hans
      rw [XdrRec.sendBytes, hput] at hsend
      cases ok₁ with
      | false =>
          cases hsend
          exact ⟨htold₁, fun hok => absurd hok Bool.false_ne_true⟩
      | true =>
          have htold₂ := hinv₁.bounds.pointers.endofrecord_told hinv₁.bounds.most hend htold₁
          change andThen (XdrRec.xdrrecEndofrecord writeit sendnow s₁) _ = _ at hsend
          rw [hend] at hsend
          cases ok₂ with
          | false =>
              cases hsend
              exact ⟨htold₂, fun hok => absurd hok Bool.false_ne_true⟩
          | true =>
              have hsent' : records = [] → s₂.fragHeader = 0 := by
                rintro rfl
                exact hnow (hlast _ rfl) htold₂
              have hlast' : ∀ q ∈ records.getLast?, q.2 = true := by
                intro q hq
                refine hlast q ?_
                rw [Option.mem_def] at hq
                rw [List.getLast?_cons, hq]
                rfl
              have hrest := ih (fun q hq => hwords q (List.mem_cons_of_mem _ hq)) hinv₂ htold₂ hsent' hlast' hsend
              rw [List.append_assoc] at hrest
              exact hrest

/-- What has been written is the records that the stream carries, if nothing is left in its buffer. -/
theorem Inv.written {records : List (List Byte)} (h : Inv writeit s records []) (hans : Answered writeit s.written)
    (hempty : s.fragHeader = 0) :
    ∃ rs : List (List Fragment), (∀ r ∈ rs, Marked r ∧ ∀ f ∈ r, f.Fits) ∧ rs.map payload = records ∧
      s.written.flatten = rs.flatMap fun r => r.flatMap Fragment.wire := by
  obtain ⟨done, sent, hwire, hdone, hopen, hputs, hnil⟩ := h.carries hans
  rw [List.append_eq_nil_iff] at hnil
  have hnone : sent = [] := by
    rw [List.eq_nil_iff_forall_not_mem]
    intro f hf
    exact (hopen f hf).1.2 (List.flatMap_eq_nil_iff.mp hnil.1 f hf)
  rw [hempty, hnone, List.take_zero, List.append_nil, List.flatMap_nil, List.append_nil] at hwire
  exact ⟨done, hdone, hputs, hwire⟩

end Sender

/-! ### The values arrive -/

/-- Decoding the external forms of values in memory. -/
theorem decodeRecords_wires {env : XdrEnv} (halloc : ∀ k, env.alloc k = true) {items : List Item}
    (hitems : ∀ item ∈ items, item.Sound) (calls : Nat) (blocks : List Block) :
    ∃ objs rest, decodeRecords env (items.map fun item => (item.func, item.wire)) calls blocks =
        .ok (objs.map (true, ·), rest) ∧
      List.Forall₂ (fun o item => item.func.Holds o item.data) objs items := by
  induction items generalizing calls blocks with
  | nil => exact ⟨[], _, rfl, .nil⟩
  | cons item items ih =>
      obtain ⟨hty, hfit, hshort⟩ := hitems item List.mem_cons_self
      obtain ⟨o, d, hlist, _, ho⟩ := item.func.finds false halloc hty hfit hshort ⟨item.wire, calls, blocks⟩ []
        (List.append_nil _).symm
      have hmem := decode_xdrmem (View.inBounds_over item.wire) env false item.func calls blocks
      rw [View.rest_over, hlist] at hmem
      obtain ⟨⟨ok, o', d'⟩, hdecode, hok, hobj, _⟩ := hmem.of_ok
      cases hok
      cases hobj
      obtain ⟨objs, rest, hrest, hobjs⟩ := ih (fun x hx => hitems x (List.mem_cons_of_mem item hx)) d'.calls d'.blocks
      refine ⟨o :: objs, rest, ?_, .cons ho hobjs⟩
      rw [List.map_cons, decodeRecords, hdecode]
      show (decodeRecords env _ d'.calls d'.blocks >>= _ : Res _) = _
      rw [hrest]
      rfl

theorem dvd_wires {records : List (Item × Bool)} (hitems : ∀ r ∈ records, r.1.Sound) :
    ∀ r ∈ records.map fun r => (r.1.wire, r.2), 4 ∣ r.1.length := by
  intro r hr
  obtain ⟨q, hq, rfl⟩ := List.mem_map.mp hr
  exact q.1.func.dvd_wire (hitems q hq).hasType

theorem last_wires {records : List (Item × Bool)} (hlast : ∀ r ∈ records.getLast?, r.2 = true) :
    ∀ r ∈ (records.map fun r => (r.1.wire, r.2)).getLast?, r.2 = true := by
  intro r hr
  rw [List.getLast?_map, Option.mem_def, Option.map_eq_some_iff] at hr
  obtain ⟨q, hq, rfl⟩ := hr
  exact hlast q hq

/-- The status tells what `writeit` has answered. -/
theorem sendRecords_told {σ : Type} {sendsize recvsize : Nat} (hsize : sendsize + recvsize + 4 < 2 ^ 31)
    (garbage : Nat → Byte) {writeit : Writeit} {readit : Readit σ} {env : XdrEnv} {records : List (Item × Bool)}
    (hitems : ∀ r ∈ records, r.1.Sound) (hlast : ∀ r ∈ records.getLast?, r.2 = true) {t : Stream σ} {ok : Bool}
    {s : OutStream} (hsend : sendRecords writeit readit env records (createOut sendsize garbage, t) = .ok (ok, s, t)) :
    Told writeit ok s.written := by
  have hstart := inv_createOut writeit hsize garbage
  obtain ⟨ok', s', hbytes⟩ := hstart.sendBytes_returns (dvd_wires hitems)
  rw [hstart.sendRecords_eq writeit readit env hitems, hbytes] at hsend
  cases hsend
  exact (hstart.sendBytes (dvd_wires hitems) (answered_nil writeit) (fun _ => rfl) (last_wires hlast) hbytes).1

theorem sendRecords_returns {σ : Type} {sendsize recvsize : Nat} (hsize : sendsize + recvsize + 4 < 2 ^ 31)
    (garbage : Nat → Byte) (writeit : Writeit) (readit : Readit σ) (env : XdrEnv) {records : List (Item × Bool)}
    (hitems : ∀ r ∈ records, r.1.Sound) (t : Stream σ) :
    ∃ ok s, sendRecords writeit readit env records (createOut sendsize garbage, t) = .ok (ok, s, t) := by
  have hstart := inv_createOut writeit hsize garbage
  obtain ⟨ok, s, hsend⟩ := hstart.sendBytes_returns (dvd_wires hitems)
  refine ⟨ok, s, ?_⟩
  rw [hstart.sendRecords_eq writeit readit env hitems, hsend]
  rfl

/-- Values whose external forms have been written as records are decoded from what has been written. -/
theorem Inv.received {writeit : Writeit} {s : OutStream} {items : List Item} (hitems : ∀ item ∈ items, item.Sound)
    (hinv : Inv writeit s (items.map Item.wire) []) (hans : Answered writeit s.written) (hempty : s.fragHeader = 0)
    {τ : Type} {readit' : Readit τ} {pending : τ → List Byte} (hs : Supplies readit' pending) {env' : XdrEnv}
    (halloc : ∀ k, env'.alloc k = true) {sendsize' recvsize' : Nat} (hsize' : sendsize' + recvsize' + 4 < 2 ^ 31)
    {handle : τ} (hpending : pending handle = s.written.flatten) {turns : Nat}
    (hturns : s.written.flatten.length + 2 ≤ turns) (writeit' : Writeit) (out : OutStream) :
    ∃ objs d,
      recvRecords writeit' readit' env' turns (items.map Item.func)
          ⟨(out, ⟨create (fixBufSize recvsize'), handle⟩), 0, []⟩ = .ok (objs.map (true, ·), d) ∧
        List.Forall₂ (fun o item => item.func.Holds o item.data) objs items := by
  obtain ⟨rs, hrs, hpayloads, hwritten⟩ := hinv.written hans hempty
  have hcount : (items.map Item.func).length ≤ rs.length := by
    have hlen := congrArg List.length hpayloads
    rw [List.length_map, List.length_map] at hlen
    rw [List.length_map]
    exact Nat.le_of_eq hlen.symm
  have hturns' : (pending handle).length + 2 ≤ turns := by
    rw [hpending]
    exact hturns
  have hrecv := (SomewhereIn.create hsize' hturns' (hpending.trans hwritten) out).recvRecords writeit' env' hs hrs
    hcount 0 []
  obtain ⟨objs, rest, hdecode, hobjs⟩ := decodeRecords_wires halloc hitems 0 []
  have hzip : (items.map Item.func).zip (rs.map payload) = items.map fun item => (item.func, item.wire) := by
    rw [hpayloads, List.zip_map']
  rw [hzip, hdecode] at hrecv
  obtain ⟨⟨_, d⟩, hrun, rfl, _⟩ := hrecv.of_ok
  exact ⟨objs, d, hrun, hobjs⟩

/-- What a sender that was told TRUE has written is decoded to its values. -/
theorem received_of_sent {σ : Type} {sendsize recvsize : Nat} (hsize : sendsize + recvsize + 4 < 2 ^ 31)
    {garbage : Nat → Byte} {writeit : Writeit} {readit : Readit σ} {env : XdrEnv} {records : List (Item × Bool)}
    (hitems : ∀ r ∈ records, r.1.Sound) (hlast : ∀ r ∈ records.getLast?, r.2 = true) {t : Stream σ} {s : OutStream}
    (hsend : sendRecords writeit readit env records (createOut sendsize garbage, t) = .ok (true, s, t))
    {τ : Type} {readit' : Readit τ} {pending : τ → List Byte} (hs : Supplies readit' pending) {env' : XdrEnv}
    (halloc : ∀ k, env'.alloc k = true) {sendsize' recvsize' : Nat} (hsize' : sendsize' + recvsize' + 4 < 2 ^ 31)
    {handle : τ} (hpending : pending handle = s.written.flatten) {turns : Nat}
    (hturns : s.written.flatten.length + 2 ≤ turns) (writeit' : Writeit) (out : OutStream) :
    ∃ objs d,
      recvRecords writeit' readit' env' turns (records.map fun r => r.1.func)
          ⟨(out, ⟨create (fixBufSize recvsize'), handle⟩), 0, []⟩ = .ok (objs.map (true, ·), d) ∧
        List.Forall₂ (fun o r => r.1.func.Holds o r.1.data) objs records := by
  have hstart := inv_createOut writeit hsize garbage
  obtain ⟨ok, s', hbytes⟩ := hstart.sendBytes_returns (dvd_wires hitems)
  rw [hstart.sendRecords_eq writeit readit env hitems, hbytes] at hsend
  cases hsend
  obtain ⟨hans, hcarries⟩ := hstart.sendBytes (dvd_wires hitems) (answered_nil writeit) (fun _ => rfl)
    (last_wires hlast) hbytes
  obtain ⟨hinv, hzero⟩ := hcarries rfl
  have hwires : [] ++ (records.map fun r => (r.1.wire, r.2)).map Prod.fst = (records.map Prod.fst).map Item.wire := by
    rw [List.nil_append, List.map_map, List.map_map]
    rfl
  have hsound : ∀ item ∈ records.map Prod.fst, item.Sound := by
    intro item hitem
    obtain ⟨r, hr, rfl⟩ := List.mem_map.mp hitem
    exact hitems r hr
  rw [hwires] at hinv
  obtain ⟨objs, d, hrun, hobjs⟩ := hinv.received hsound hans hzero hs halloc hsize' hpending hturns writeit' out
  rw [List.map_map] at hrun
  exact ⟨objs, d, hrun, List.forall₂_map_right_iff.mp hobjs⟩

/-- A sender gets an answer, and if it is TRUE all along and the last record is sent at once, a receiver that can
allocate what it decodes, whose `readit` cuts the bytes in any way, gets the values, record for record. The buffers of
both have any sizes that `xdrrec_create` can lay out. -/
theorem sendRecords_recvRecords {σ : Type} {sendsize recvsize : Nat} (hsize : sendsize + recvsize + 4 < 2 ^ 31)
    (garbage : Nat → Byte) (writeit : Writeit) (readit : Readit σ) (env : XdrEnv) {records : List (Item × Bool)}
    (hitems : ∀ r ∈ records, r.1.Sound) (hlast : ∀ r ∈ records.getLast?, r.2 = true) (t : Stream σ) :
    ∃ ok s, sendRecords writeit readit env records (createOut sendsize garbage, t) = .ok (ok, s, t) ∧
      (ok = true → ∀ {τ : Type} {readit' : Readit τ} {pending : τ → List Byte}, Supplies readit' pending →
        ∀ {env' : XdrEnv}, (∀ k, env'.alloc k = true) →
        ∀ {sendsize' recvsize' : Nat}, sendsize' + recvsize' + 4 < 2 ^ 31 →
        ∀ handle, pending handle = s.written.flatten → ∀ turns, s.written.flatten.length + 2 ≤ turns →
        ∀ writeit' out, ∃ objs d,
          recvRecords writeit' readit' env' turns (records.map fun r => r.1.func)
              ⟨(out, ⟨create (fixBufSize recvsize'), handle⟩), 0, []⟩ = .ok (objs.map (true, ·), d) ∧
            List.Forall₂ (fun o r => r.1.func.Holds o r.1.data) objs records) := by
  obtain ⟨ok, s, hsend⟩ := sendRecords_returns hsize garbage writeit readit env hitems t
  refine ⟨ok, s, hsend, ?_⟩
  rintro rfl τ readit' pending hs env' halloc sendsize' recvsize' hsize' handle hpending turns hturns writeit' out
  exact received_of_sent hsize hitems hlast hsend hs halloc hsize' hpending hturns writeit' out

/-- Two greetings, the second one sent with the first, that are read three bytes at a time. -/
theorem sendRecords_recvRecords_greetings : ∃ s objs d,
    sendRecords (fun _ bytes => bytes.length) byThrees .ample [(greeting, false), (greeting, true)]
        (createOut 100 fun _ => 0, ⟨create 100, []⟩) = .ok (true, s, ⟨create 100, []⟩) ∧
      recvRecords (fun _ _ => -1) byThrees .ample 100 [greeting.func, greeting.func]
          ⟨(s, ⟨create (fixBufSize 400), s.written.flatten⟩), 0, []⟩ = .ok (objs.map (true, ·), d) ∧
      List.Forall₂ (fun o (r : Item × Bool) => r.1.func.Holds o r.1.data) objs
        [(greeting, false), (greeting, true)] := by
  have hsound : ∀ r ∈ [(greeting, false), (greeting, true)], r.1.Sound := by
    intro r hr
    have hr : r = (greeting, false) ∨ r = (greeting, true) := by simpa using hr
    rcases hr with rfl | rfl
    · exact greeting_sound
    · exact greeting_sound
  have hsent : (sendRecords (fun _ bytes => bytes.length) byThrees .ample [(greeting, false), (greeting, true)]
      (createOut 100 fun _ => 0, ⟨create 100, []⟩)).toOption.map
        (fun p => (p.1, decide (p.2.1.written.flatten.length ≤ 98))) = some (true, true) := by
    decide +kernel
  obtain ⟨ok, s, hsend, hrecv⟩ := @sendRecords_recvRecords (List Byte) 100 100 (by decide) (fun _ => 0)
    (fun _ bytes => bytes.length) byThrees .ample [(greeting, false), (greeting, true)] hsound (by decide)
    ⟨create 100, []⟩
  rw [hsend] at hsent
  obtain ⟨rfl, hshort⟩ := Prod.mk.inj (Option.some.inj hsent)
  have hturns : s.written.flatten.length + 2 ≤ 100 := Nat.add_le_add_right (of_decide_eq_true hshort) 2
  have halloc : ∀ k, XdrEnv.ample.alloc k = true := fun _ => rfl
  have hsize : 100 + 400 + 4 < 2 ^ 31 := by decide
  obtain ⟨objs, d, hrun, hobjs⟩ := hrecv rfl byThrees_supplies halloc hsize s.written.flatten rfl 100 hturns
    (fun _ _ => -1) s
  exact ⟨s, objs, d, hsend, hrun, hobjs⟩

end RpcMt.XdrRec
