import RpcMt.TcpWaits
import RpcMt.UdpServer

/-! Requests and replies on one TCP connection. The xid of a reply is read from the connection when the
reply is written, and arguments are decoded from where the stream is when `svc_getargs` runs, so both
belong to the worker's own call only as long as the dispatch thread has not gone on to another
one. The waits of mtmode 0, and of mtmode 1 with the mutex wait, see to that; otherwise it is a
matter of conditions on the steps. -/

open RpcMt.Runs RpcMt.XdrRec

namespace RpcMt.Tcp

/-- The configurations in which a call is not received before the worker of the last one has
returned. -/
def serial (cfg : Config) : Bool :=
  cfg.mtmode == 0 || (cfg.mtmode == 1 && cfg.waitMethodTcp == waitMutex)

namespace TcpServer

variable {cfg : Config} {xdrCallmsg : RecFilter readtcp RpcMsg} {s t : TcpServer} {w w' : Worker} {i : Nat}

/-- No worker that could still disturb or be disturbed is around while the dispatch thread is busy. -/
structure SerialInv (s : TcpServer) : Prop where
  one : AllButOne Worker.returned s.workers
  idle : ¬s.InWait → ∀ w ∈ s.workers, w.returned = true

theorem serialInv_of_reached {sock recvsize : Nat} {stat : XprtStat} {ok : TcpServer → Event → Prop}
    (hserial : serial cfg = true)
    (h : Reached (step cfg xdrCallmsg) ok (start sock recvsize stat) s) : SerialInv s := by
  rcases Bool.or_eq_true_iff.mp hserial with hzero | hlocked
  · have hmode : cfg.mtmode = 0 := by simpa using hzero
    have hinv : ReturnInv s := by
      apply h.invariant ReturnInv ⟨.nil, by simp, by simp⟩
      exact fun _ _ _ hs _ hst => returnInv_step hmode hs hst
    exact ⟨hinv.one, fun hno => hinv.done (Or.inl (not_or.mp hno).1)⟩
  · obtain ⟨hmode, hm⟩ : cfg.mtmode = 1 ∧ cfg.waitMethodTcp = waitMutex := by simpa using hlocked
    have hinv : LockedInv s := by
      apply h.invariant LockedInv ⟨rfl, rfl, by simp, fun _ => rfl, .nil⟩
      exact fun _ _ _ hs _ hst => lockedInv_step hmode hm hs hst
    refine ⟨hinv.one, fun hno => ?_⟩
    rw [hinv.idle fun waiter hpc => (not_or.mp hno).2 ⟨waiter, hpc⟩]
    exact nofun

/-! ### The xid of a reply -/

/-- The xid of the next call, if it can be received now. -/
def nextXid (cfg : Config) (xdrCallmsg : RecFilter readtcp RpcMsg) (s : TcpServer) : Option Nat := do
  let (r, _) ← svctcpRecv cfg xdrCallmsg s.conn
  let msg ← r
  some msg.rmXid

/-- A call is not received while a worker has yet to reply to one with another xid, and no worker
replies twice. -/
def keepsXid (cfg : Config) (xdrCallmsg : RecFilter readtcp RpcMsg) (s : TcpServer) : Event → Bool
  | .recv => match nextXid cfg xdrCallmsg s with
      | some xid => s.workers.all fun w => w.returned || w.replied || w.rmXid == xid
      | none => true
  | .reply i _ => match s.workers[i]? with
      | some w => !w.replied
      | none => true
  | _ => true

def XidSafe (cfg : Config) (xdrCallmsg : RecFilter readtcp RpcMsg) (s : TcpServer) (e : Event) : Prop :=
  serial cfg = true ∨ keepsXid cfg xdrCallmsg s e = true

instance (s : TcpServer) (e : Event) : Decidable (XidSafe cfg xdrCallmsg s e) :=
  inferInstanceAs (Decidable (_ ∨ _))

/-- The worker can still send a reply. -/
def answering (cfg : Config) (w : Worker) : Bool := !w.returned && (serial cfg || !w.replied)

structure XidInv (cfg : Config) (s : TcpServer) : Prop where
  pending : ∀ w ∈ s.workers, answering cfg w = true → s.xprt.xpPriv.xId = w.rmXid
  received : ∀ msg args, s.pc = .received msg args → s.xprt.xpPriv.xId = msg.rmXid
  replies : ∀ r ∈ s.replies, r.sent = r.call

/-- What the step may rely on, in every configuration. -/
structure XidStep (cfg : Config) (xdrCallmsg : RecFilter readtcp RpcMsg) (s : TcpServer) (e : Event) :
    Prop where
  recv : e = .recv → ∀ xid, nextXid cfg xdrCallmsg s = some xid →
    ∀ w ∈ s.workers, answering cfg w = true → xid = w.rmXid
  reply : ∀ i died w, e = .reply i died → s.workers[i]? = some w → w.returned = false →
    answering cfg w = true

/-- Neither the xid nor the workers that can reply have changed. -/
theorem XidInv.keep (h : XidInv cfg s) (hx : t.xprt.xpPriv.xId = s.xprt.xpPriv.xId)
    (hw : ∀ v ∈ t.workers, answering cfg v = true → ∃ v' ∈ s.workers, answering cfg v' = true ∧ v'.rmXid = v.rmXid)
    (hpc : ∀ msg args, t.pc = .received msg args → s.pc = .received msg args)
    (hreplies : t.replies = s.replies) : XidInv cfg t := by
  refine ⟨?_, fun msg args hmsg => hx.trans (h.received msg args (hpc msg args hmsg)), hreplies ▸ h.replies⟩
  intro v hv hans
  obtain ⟨v', hv', hans', hxid⟩ := hw v hv hans
  calc t.xprt.xpPriv.xId
    _ = s.xprt.xpPriv.xId := hx
    _ = v'.rmXid := h.pending v' hv' hans'
    _ = v.rmXid := hxid

theorem same_workers (ws : List Worker) :
    ∀ v ∈ ws, answering cfg v = true → ∃ v' ∈ ws, answering cfg v' = true ∧ v'.rmXid = v.rmXid :=
  fun v hv hans => ⟨v, hv, hans, rfl⟩

theorem set_workers {ws : List Worker} (hi : ws[i]? = some w) (hans : answering cfg w' = true → answering cfg w = true)
    (hxid : w'.rmXid = w.rmXid) :
    ∀ v ∈ ws.set i w', answering cfg v = true → ∃ v' ∈ ws, answering cfg v' = true ∧ v'.rmXid = v.rmXid := by
  intro v hv hv'
  rcases List.mem_or_eq_of_mem_set hv with hv | rfl
  · exact ⟨v, hv, hv', rfl⟩
  · exact ⟨w, List.mem_of_getElem? hi, hans hv', hxid.symm⟩

theorem xidInv_step {e : Event} (h : XidInv cfg s) (hok : XidStep cfg xdrCallmsg s e)
    (hst : s.step cfg xdrCallmsg e = some t) : XidInv cfg t := by
  cases e with
  | arrive r =>
      cases hst
      exact h.keep rfl (same_workers _) (fun _ _ h => h) rfl
  | svcPoll =>
      obtain ⟨_, x, rfl, hpriv, _⟩ := svcPoll_ok hst
      have hx : x.xpPriv.xId = s.xprt.xpPriv.xId := by rw [hpriv]
      exact h.keep hx (same_workers _) nofun rfl
  | recv =>
      obtain ⟨_, r, conn, hr, rfl⟩ := recv_ok hst
      obtain ⟨_, hx⟩ := svctcpRecv_ok hr
      cases r with
      | none => exact h.keep hx (same_workers _) nofun rfl
      | some msg =>
          have hnext : nextXid cfg xdrCallmsg s = some msg.rmXid := by
            simp only [nextXid, hr]
            rfl
          refine ⟨fun w hmem hans => hx.trans (hok.recv rfl _ hnext w hmem hans), ?_, h.replies⟩
          rintro _ _ ⟨⟩
          exact hx
  | refuse died =>
      obtain ⟨msg, args, hpc, rfl⟩ := refuse_ok hst
      have hx := (svctcpReply_held s.xprt died).xId
      refine ⟨fun w hmem hans => hx.trans (h.pending w hmem hans), nofun, ?_⟩
      intro r hr
      rcases List.mem_append.mp hr with hr | hr
      · exact h.replies r hr
      · rw [List.mem_singleton.mp hr]
        exact h.received msg args hpc
  | dispatch =>
      obtain ⟨msg, args, hpc, hcase⟩ := dispatch_ok hst
      cases hcase with
      | dropped pc hpc' ht =>
          subst ht
          refine h.keep rfl (same_workers _) ?_ rfl
          rcases hpc' with rfl | rfl <;> exact nofun
      | handed y pc wr hreq hcase ht =>
          subst ht
          have hx : y.xpPriv.xId = s.xprt.xpPriv.xId := by rw [requestDispatch_priv hreq]
          refine ⟨?_, ?_, h.replies⟩
          · intro w hmem hans
            rcases List.mem_append.mp hmem with hmem | hmem
            · exact hx.trans (h.pending w hmem hans)
            · rw [List.mem_singleton.mp hmem]
              exact hx.trans (h.received msg args hpc)
          · intro msg' args' hpc'
            rcases hcase with ⟨_, rfl, _⟩ | ⟨_, rfl⟩ | ⟨_, rfl⟩ <;> cases hpc'
  | wait =>
      rcases wait_ok hst with ⟨_, rfl | ⟨_, rfl⟩⟩ | ⟨waiter, hpc, rfl⟩
      · exact h
      · exact h.keep rfl (same_workers _) nofun rfl
      · have hx : (Wait.waitOnGetargs cfg (waiter, s.xprt)).2.xpPriv.xId = s.xprt.xpPriv.xId := by
          rw [Wait.waitOnGetargs_priv]
        refine h.keep hx (same_workers _) (fun msg args hpc' => ?_) rfl
        dsimp only at hpc'
        split at hpc' <;> cases hpc'
  | stat =>
      obtain ⟨_, xrv, conn, pc, hstat, hpc', rfl⟩ := stat_ok hst
      refine h.keep (svctcpStat_ok hstat).1.xId (same_workers _) ?_ rfl
      rcases hpc' with rfl | rfl | rfl <;> exact nofun
  | getargs i xdrArgs =>
      obtain ⟨w, rv, conn, hi, _, hrun, rfl⟩ := getargs_ok hst
      exact h.keep (svctcpGetargs_held hrun).xId (set_workers hi id rfl) (fun _ _ h => h) rfl
  | endGetargs i =>
      obtain ⟨w, hi, _, _, rfl⟩ := endGetargs_ok hst
      have hx : (RpcMt.endGetargs cfg s.xprt).xpPriv.xId = s.xprt.xpPriv.xId := by
        unfold RpcMt.endGetargs
        split <;> rfl
      exact h.keep hx (set_workers hi id rfl) (fun _ _ h => h) rfl
  | reply i died =>
      obtain ⟨w, hi, hw, rfl⟩ := reply_ok hst
      have hx := (svctcpReply_held s.xprt died).xId
      have hmem : w ∈ s.workers := List.mem_of_getElem? hi
      have hans := hok.reply i died w rfl hi hw
      refine ⟨?_, fun msg args hpc => hx.trans (h.received msg args hpc), ?_⟩
      · intro v hv hv'
        rcases List.mem_or_eq_of_mem_set hv with hv | rfl
        · exact hx.trans (h.pending v hv hv')
        · exact hx.trans (h.pending w hmem hans)
      · intro r hr
        rcases List.mem_append.mp hr with hr | hr
        · exact h.replies r hr
        · rw [List.mem_singleton.mp hr]
          exact h.pending w hmem hans
  | freeargs i rv =>
      cases freeargs_ok hst
      exact h.keep rfl (same_workers _) (fun _ _ h => h) rfl
  | ret i =>
      obtain ⟨w, x, hi, _, _, hx, rfl⟩ := ret_ok hst
      have hxid := (svcReturn_flags hx).2.2.1
      refine h.keep hxid (set_workers hi ?_ rfl) (fun _ _ h => h) rfl
      exact fun hans => by simp [answering] at hans

theorem SerialInv.xidStep (h : SerialInv s) (hserial : serial cfg = true) {e : Event}
    (hst : s.step cfg xdrCallmsg e = some t) : XidStep cfg xdrCallmsg s e := by
  refine ⟨?_, fun i died w _ _ hw => by simp [answering, hw, hserial]⟩
  rintro rfl xid _ w hmem hans
  obtain ⟨hpc, _⟩ := recv_ok hst
  have hret := h.idle (by simp [InWait, hpc]) w hmem
  simp [answering, hret] at hans

theorem xidStep_of_keepsXid (hserial : serial cfg = false) {e : Event}
    (hok : keepsXid cfg xdrCallmsg s e = true) : XidStep cfg xdrCallmsg s e := by
  refine ⟨?_, ?_⟩
  · rintro rfl xid hnext w hmem hans
    simp only [keepsXid, hnext, List.all_eq_true] at hok
    have hw := hok w hmem
    simp only [answering, hserial, Bool.false_or, Bool.and_eq_true, Bool.not_eq_true'] at hans
    simp only [hans.1, hans.2, Bool.false_or, beq_iff_eq] at hw
    exact hw.symm
  · rintro i died w rfl hi hw
    simp only [keepsXid, hi] at hok
    simp [answering, hw, hserial, hok]

/-- In every run whose steps are all safe, every reply carries the xid of the call it answers. -/
theorem replies_match {cfg : Config} {xdrCallmsg : RecFilter readtcp RpcMsg} {sock recvsize : Nat}
    {stat : XprtStat} {s : TcpServer}
    (h : Reached (step cfg xdrCallmsg) (XidSafe cfg xdrCallmsg) (start sock recvsize stat) s) :
    ∀ r ∈ s.replies, r.sent = r.call := by
  have hinv : XidInv cfg s ∧ (serial cfg = true → SerialInv s) := by
    induction h with
    | start => exact ⟨⟨by simp, by simp, by simp⟩, fun _ => ⟨.nil, by simp⟩⟩
    | @next s t e hs hok hst ih =>
        have hreached : serial cfg = true → SerialInv t := fun hserial =>
          serialInv_of_reached hserial (.next hs hok hst)
        refine ⟨xidInv_step ih.1 ?_ hst, hreached⟩
        cases hserial : serial cfg with
        | true => exact (ih.2 hserial).xidStep hserial hst
        | false =>
            refine xidStep_of_keepsXid hserial (hok.resolve_left ?_)
            rw [hserial]
            exact nofun
  exact hinv.1.replies

/-! Two calls without credentials that come in together, and a worker for each. -/

/-- `xdr_callmsg` on a message with empty credentials and verifier: ten words. -/
def xdrNullCallmsg : RecFilter readtcp RpcMsg :=
  (RecFilter.getWords 10).seq fun
    | [xid, direction, rpcvers, prog, vers, proc, flavor, credLen, _, verfLen] =>
        .done (if direction == 0 && rpcvers == 2 && credLen == 0 && verfLen == 0 then
          some ⟨xid, prog, vers, proc, flavor⟩ else none)
    | _ => .done none

/-- A record of one fragment. -/
def record (payload : List Byte) : List Byte := htonl (2 ^ 31 + payload.length) ++ payload

/-- A filter that decodes some words. -/
def xdrWords (n : Nat) : RecFilter readtcp Unit := (RecFilter.getWords n).seq fun _ => .done (some ())

def mtmode2 : Config := { defaultConfig with mtmode := 2 }

def arrivals (bytes : List Byte) : List Event := (Reading.ofBytes bytes).map .arrive

def twoCalls : List Event := arrivals (record (nullCall 7 100 1 1 [5]) ++ record (nullCall 8 100 1 1 [6]))

/-- In mtmode 2 the second of two pipelined calls is received before the first one is replied to, and
both replies carry its xid. -/
theorem replies_not_match : ∃ s, Reached (step mtmode2 xdrNullCallmsg) anyStep (start 6 4000 .idle) s ∧
    ¬∀ r ∈ s.replies, r.sent = r.call := by
  have hrun : (exec (step mtmode2 xdrNullCallmsg) anyStep (start 6 4000 .idle)
      (twoCalls ++ [.svcPoll, .recv, .dispatch, .stat, .recv, .reply 0 false])).map replies =
      some [⟨8, 7⟩] := by decide +kernel
  obtain ⟨s, hs, hreplies⟩ := Option.map_eq_some_iff.mp hrun
  refine ⟨s, reached_of_exec _ _ .start _ hs, ?_⟩
  rw [hreplies]
  decide

/-- The first call is served before the second is received. -/
theorem replies_match_served :
    ∃ s, Reached (step mtmode2 xdrNullCallmsg) (XidSafe mtmode2 xdrNullCallmsg) (start 6 4000 .idle) s ∧
      s.replies = [⟨7, 7⟩, ⟨8, 8⟩] ∧ ∀ r ∈ s.replies, r.sent = r.call := by
  have hrun : (exec (step mtmode2 xdrNullCallmsg) (XidSafe mtmode2 xdrNullCallmsg) (start 6 4000 .idle)
      (twoCalls ++ [.svcPoll, .recv, .dispatch, .getargs 0 (xdrWords 1), .endGetargs 0, .reply 0 false,
        .ret 0, .stat, .recv, .dispatch, .getargs 1 (xdrWords 1), .endGetargs 1, .reply 1 false])).map
      replies = some [⟨7, 7⟩, ⟨8, 8⟩] := by decide +kernel
  obtain ⟨s, hs, hreplies⟩ := Option.map_eq_some_iff.mp hrun
  have hreached := reached_of_exec _ _ .start _ hs
  exact ⟨s, hreached, hreplies, replies_match hreached⟩

/-! ### The arguments of a call -/

/-- No worker calls `svc_getargs` twice. -/
def decodesOnce (s : TcpServer) : Event → Bool
  | .getargs i _ => match s.workers[i]? with
      | some w => !w.decoded
      | none => true
  | _ => true

/-- The dispatch thread goes on to the next call only when every worker has decoded or returned; it
looks ahead on a stream that has died, or from the end of a record, at any time. -/
def skipsNothing (s : TcpServer) : Event → Bool
  | .recv => s.workers.all Worker.settled
  | .stat => s.xprt.xpPriv.strmStat == .died || (s.conn.strm.fbtbc == 0 && s.conn.strm.lastFrag) ||
      s.workers.all Worker.settled
  | _ => true

def ArgsSafe (cfg : Config) (s : TcpServer) (e : Event) : Prop :=
  serial cfg = true ∨ (decodesOnce s e = true ∧
    if cfg.mtmode = 1 then freshHandover s e = true else skipsNothing s e = true)

instance (s : TcpServer) (e : Event) : Decidable (ArgsSafe cfg s e) :=
  inferInstanceAs (Decidable (_ ∨ _ ∧ _))

structure ArgsInv (s : TcpServer) : Prop where
  one : AllButOne Worker.settled s.workers
  pending : ∀ w ∈ s.workers, w.settled = false → place s.conn = w.args
  received : ∀ msg args, s.pc = .received msg args →
    place s.conn = args ∧ ∀ w ∈ s.workers, w.settled = true
  decodings : ∀ d ∈ s.decodings, d.found = d.args

/-- What the step may rely on, in every configuration. -/
structure ArgsStep (s : TcpServer) (e : Event) : Prop where
  recv : e = .recv → ∀ w ∈ s.workers, w.settled = true
  stat : e = .stat → (s.xprt.xpPriv.strmStat = .died ∨ (s.conn.strm.fbtbc = 0 ∧ s.conn.strm.lastFrag = true)) ∨
    ∀ w ∈ s.workers, w.settled = true
  getargs : ∀ i f w, e = .getargs i f → s.workers[i]? = some w → w.returned = false → w.decoded = true →
    (∀ msg args, s.pc ≠ .received msg args) ∧ ∀ v ∈ s.workers, v.settled = true

/-- The stream is where it was, and no worker has become unsettled. -/
theorem ArgsInv.keep (h : ArgsInv s) (hplace : place t.conn = place s.conn) (hone : AllButOne Worker.settled t.workers)
    (hw : ∀ v ∈ t.workers, v ∈ s.workers ∨ v.settled = true ∨ place s.conn = v.args)
    (hpc : ∀ msg args, t.pc = .received msg args → s.pc = .received msg args ∧ t.workers = s.workers)
    (hlog : t.decodings = s.decodings) : ArgsInv t := by
  refine ⟨hone, ?_, ?_, hlog ▸ h.decodings⟩
  · intro v hv hno
    rw [hplace]
    rcases hw v hv with hold | hset | hhere
    · exact h.pending v hold hno
    · rw [hset] at hno
      cases hno
    · exact hhere
  · intro msg args hmsg
    obtain ⟨hmsg, hsame⟩ := hpc msg args hmsg
    rw [hplace, hsame]
    exact h.received msg args hmsg

/-- Only the transport and the dispatch thread's own state have changed. -/
theorem ArgsInv.same (h : ArgsInv s) (hplace : place t.conn = place s.conn) (hw : t.workers = s.workers)
    (hpc : ∀ msg args, t.pc = .received msg args → s.pc = .received msg args)
    (hlog : t.decodings = s.decodings) : ArgsInv t :=
  h.keep hplace (hw ▸ h.one) (fun _ hv => Or.inl (hw ▸ hv)) (fun msg args h => ⟨hpc msg args h, hw⟩) hlog

/-- A worker that does not read leaves the stream where it is. -/
theorem ArgsInv.work (h : ArgsInv s) (hi : s.workers[i]? = some w) (hplace : place t.conn = place s.conn)
    (hw : t.workers = s.workers.set i w') (hargs : w'.args = w.args)
    (hset : w.settled = true → w'.settled = true) (hpc : t.pc = s.pc) (hlog : t.decodings = s.decodings) :
    ArgsInv t := by
  have hmem : w ∈ s.workers := List.mem_of_getElem? hi
  have hor : w.settled = false ∨ w'.settled = true := by
    cases hw : w.settled with
    | false => exact Or.inl rfl
    | true => exact Or.inr (hset hw)
  refine ⟨hw ▸ h.one.set hi hor, ?_, ?_, hlog ▸ h.decodings⟩
  · intro v hv hno
    rw [hw] at hv
    rw [hplace]
    rcases List.mem_or_eq_of_mem_set hv with hv | rfl
    · exact h.pending v hv hno
    · rw [hargs]
      refine h.pending w hmem ?_
      cases hold : w.settled with
      | false => rfl
      | true =>
          rw [hset hold] at hno
          cases hno
  · intro msg args hmsg
    rw [hpc] at hmsg
    obtain ⟨hhere, hall⟩ := h.received msg args hmsg
    refine ⟨hplace.trans hhere, fun v hv => ?_⟩
    rw [hw] at hv
    rcases List.mem_or_eq_of_mem_set hv with hv | rfl
    · exact hall v hv
    · exact hset (hall w hmem)

/-- Every worker is settled, so that the stream may go anywhere. -/
theorem ArgsInv.settled (h : ∀ w ∈ t.workers, w.settled = true)
    (hreceived : ∀ msg args, t.pc = .received msg args → place t.conn = args)
    (hlog : ∀ d ∈ t.decodings, d.found = d.args) : ArgsInv t := by
  refine ⟨⟨0, fun j v hj hno => ?_⟩, fun v hv hno => ?_, fun msg args hmsg => ⟨hreceived msg args hmsg, h⟩, hlog⟩
  · rw [h v (List.mem_of_getElem? hj)] at hno
    cases hno
  · rw [h v hv] at hno
    cases hno

theorem argsInv_getargs {f : RecFilter readtcp Unit} (h : ArgsInv s) (hok : ArgsStep s (.getargs i f))
    (hst : s.getargs i f = some t) : ArgsInv t := by
  obtain ⟨w, rv, conn, hi, hw, _, rfl⟩ := getargs_ok hst
  have hmem : w ∈ s.workers := List.mem_of_getElem? hi
  cases hdec : w.decoded with
  | false =>
      have hno : w.settled = false := by simp [Worker.settled, hdec, hw]
      have hhere := h.pending w hmem hno
      apply ArgsInv.settled
      · intro v hv
        rcases h.one.others hi hno hv with rfl | hset
        · rfl
        · exact hset
      · intro msg args hmsg
        have hall := (h.received msg args hmsg).2 w hmem
        rw [hno] at hall
        cases hall
      · intro d hd
        rcases List.mem_append.mp hd with hd | hd
        · exact h.decodings d hd
        · rw [List.mem_singleton.mp hd]
          exact hhere
  | true =>
      obtain ⟨hpc, hall⟩ := hok.getargs i f w rfl hi hw hdec
      apply ArgsInv.settled
      · intro v hv
        rcases List.mem_or_eq_of_mem_set hv with hv | rfl
        · exact hall v hv
        · rfl
      · intro msg args hmsg
        exact absurd hmsg (hpc msg args)
      · intro d hd
        rcases List.mem_append.mp hd with hd | hd
        · exact h.decodings d hd
        · cases hd

theorem argsInv_step {e : Event} (h : ArgsInv s) (hok : ArgsStep s e)
    (hst : s.step cfg xdrCallmsg e = some t) : ArgsInv t := by
  cases e with
  | arrive r =>
      cases hst
      exact h.same rfl rfl (fun _ _ h => h) rfl
  | svcPoll =>
      obtain ⟨_, x, rfl, _, _⟩ := svcPoll_ok hst
      exact h.same rfl rfl nofun rfl
  | recv =>
      obtain ⟨_, r, conn, _, rfl⟩ := recv_ok hst
      refine ArgsInv.settled (hok.recv rfl) (fun msg args hmsg => ?_) h.decodings
      cases r with
      | none => cases hmsg
      | some msg' =>
          cases hmsg
          rfl
  | refuse died =>
      obtain ⟨msg, args, _, rfl⟩ := refuse_ok hst
      exact h.same rfl rfl nofun rfl
  | dispatch =>
      obtain ⟨msg, args, hpc, hcase⟩ := dispatch_ok hst
      obtain ⟨hhere, hall⟩ := h.received msg args hpc
      cases hcase with
      | dropped pc hpc' ht =>
          subst ht
          refine h.same rfl rfl ?_ rfl
          rcases hpc' with rfl | rfl <;> exact nofun
      | handed y pc wr _ hcase ht =>
          subst ht
          refine h.keep rfl (.append hall _) (fun v hv => ?_) (fun msg' args' hpc' => ?_) rfl
          · rcases List.mem_append.mp hv with hv | hv
            · exact Or.inl hv
            · rw [List.mem_singleton.mp hv]
              exact Or.inr (Or.inr hhere)
          · rcases hcase with ⟨_, rfl, _⟩ | ⟨_, rfl⟩ | ⟨_, rfl⟩ <;> cases hpc'
  | wait =>
      rcases wait_ok hst with ⟨_, rfl | ⟨_, rfl⟩⟩ | ⟨waiter, _, rfl⟩
      · exact h
      · exact h.same rfl rfl nofun rfl
      · refine h.same rfl rfl (fun msg args hpc' => ?_) rfl
        dsimp only at hpc'
        split at hpc' <;> cases hpc'
  | stat =>
      obtain ⟨_, xrv, conn, pc, hstat, hpc', rfl⟩ := stat_ok hst
      have hnot : ∀ msg args, pc ≠ .received msg args := by rcases hpc' with rfl | rfl | rfl <;> exact nofun
      rcases hok.stat rfl with hstay | hall
      · have hsame := (svctcpStat_ok hstat).2 hstay
        subst hsame
        exact h.same rfl rfl (fun msg args hmsg => absurd hmsg (hnot msg args)) rfl
      · exact ArgsInv.settled hall (fun msg args hmsg => absurd hmsg (hnot msg args)) h.decodings
  | getargs i f => exact argsInv_getargs h hok hst
  | endGetargs i =>
      obtain ⟨w, hi, _, _, rfl⟩ := endGetargs_ok hst
      exact h.work hi rfl rfl rfl id rfl rfl
  | reply i died =>
      obtain ⟨w, hi, _, rfl⟩ := reply_ok hst
      exact h.work hi rfl rfl rfl id rfl rfl
  | freeargs i rv =>
      cases freeargs_ok hst
      exact h.same rfl rfl (fun _ _ h => h) rfl
  | ret i =>
      obtain ⟨w, x, hi, _, _, _, rfl⟩ := ret_ok hst
      exact h.work hi rfl rfl rfl (fun _ => by simp [Worker.settled]) rfl rfl

theorem settled_of_returned {w : Worker} (h : w.returned = true) : w.settled = true := by
  simp [Worker.settled, h]

theorem SerialInv.argsStep (h : SerialInv s) {e : Event} (hst : s.step cfg xdrCallmsg e = some t) :
    ArgsStep s e := by
  refine ⟨?_, ?_, ?_⟩
  · rintro rfl w hmem
    obtain ⟨hpc, _⟩ := recv_ok hst
    exact settled_of_returned (h.idle (by simp [InWait, hpc]) w hmem)
  · rintro rfl
    obtain ⟨hpc, _⟩ := stat_ok hst
    exact Or.inr fun w hmem => settled_of_returned (h.idle (by simp [InWait, hpc]) w hmem)
  · rintro i f w rfl hi hw hdec
    have hmem : w ∈ s.workers := List.mem_of_getElem? hi
    refine ⟨fun msg args hpc => ?_, fun v hv => ?_⟩
    · have hret := h.idle (by simp [InWait, hpc]) w hmem
      rw [hw] at hret
      cases hret
    · -- The other workers have returned, and this one has decoded.
      have hself : s.workers.set i w = s.workers := by
        obtain ⟨hlt, hget⟩ := List.getElem?_eq_some_iff.mp hi
        rw [← hget, List.set_getElem_self]
      rcases h.one.others hi hw (show v ∈ s.workers.set i w from hself.symm ▸ hv) with rfl | hret
      · simp [Worker.settled, hdec]
      · exact settled_of_returned hret

/-- A worker that calls `svc_getargs` has not decoded before. -/
theorem decodesOnce_iff {f : RecFilter readtcp Unit} (hi : s.workers[i]? = some w)
    (h : decodesOnce s (.getargs i f) = true) : w.decoded = false := by
  simpa [decodesOnce, hi] using h

theorem PollInv.argsStep (h : PollInv s) {e : Event} (honce : decodesOnce s e = true)
    (hst : s.step cfg xdrCallmsg e = some t) : ArgsStep s e := by
  refine ⟨?_, ?_, ?_⟩
  · rintro rfl
    obtain ⟨hpc, _⟩ := recv_ok hst
    exact h.settled (by simp [hpc])
  · rintro rfl
    obtain ⟨hpc, _⟩ := stat_ok hst
    exact Or.inr (h.settled (by simp [hpc]))
  · rintro i f w rfl hi _ hdec
    rw [decodesOnce_iff hi honce] at hdec
    cases hdec

theorem argsStep_of_skipsNothing {e : Event} (honce : decodesOnce s e = true)
    (hskip : skipsNothing s e = true) : ArgsStep s e := by
  refine ⟨?_, ?_, ?_⟩
  · rintro rfl
    simpa [skipsNothing] using hskip
  · rintro rfl
    simpa [skipsNothing] using hskip
  · rintro i f w rfl hi _ hdec
    rw [decodesOnce_iff hi honce] at hdec
    cases hdec

theorem pollInv_start (sock recvsize : Nat) (stat : XprtStat) : PollInv (start sock recvsize stat) := by
  refine ⟨rfl, by simp, .nil, by simp, by simp, by simp, by simp⟩

/-- In every run whose steps are all safe, every `svc_getargs` begins where `svctcp_recv` left the
stream after the worker's own call. -/
theorem decodings_match {cfg : Config} {xdrCallmsg : RecFilter readtcp RpcMsg} {sock recvsize : Nat}
    {stat : XprtStat} {s : TcpServer}
    (h : Reached (step cfg xdrCallmsg) (ArgsSafe cfg) (start sock recvsize stat) s) :
    ∀ d ∈ s.decodings, d.found = d.args := by
  have hinv : ArgsInv s ∧ (serial cfg = true → SerialInv s) ∧
      (serial cfg = false → cfg.mtmode = 1 → PollInv s) := by
    induction h with
    | start =>
        refine ⟨ArgsInv.settled (by simp) (by simp) (by simp), fun _ => ⟨.nil, by simp⟩, fun _ _ => ?_⟩
        exact pollInv_start sock recvsize stat
    | @next s t e hs hok hst ih =>
        obtain ⟨hargs, hserialInv, hpoll⟩ := ih
        refine ⟨argsInv_step hargs ?_ hst, fun hserial => serialInv_of_reached hserial (.next hs hok hst), ?_⟩
        · cases hserial : serial cfg with
          | true => exact (hserialInv hserial).argsStep hst
          | false =>
              obtain ⟨honce, hcond⟩ := hok.resolve_left (by simp [hserial])
              split at hcond
              · rename_i hmode
                exact (hpoll hserial hmode).argsStep honce hst
              · exact argsStep_of_skipsNothing honce hcond
        · intro hserial hmode
          obtain ⟨_, hcond⟩ := hok.resolve_left (by simp [hserial])
          rw [if_pos hmode] at hcond
          have hm : cfg.waitMethodTcp ≠ waitMutex := by
            intro hm
            simp [serial, hmode, hm] at hserial
          exact pollInv_step hmode hm (hpoll hserial hmode) hcond hst
  exact hinv.1.decodings

def usleep : Config := { defaultConfig with waitMethodTcp := waitUsleep }

/-- Whether each decoding began where it should have, and how many there were. -/
def decodedRight (s : TcpServer) : List Bool := s.decodings.map fun d => decide (d.found = d.args)

/-- With the polling wait the first worker's `XPRT_GETARGS` is still set when the second call is handed
over, so `svctcp_stat` skips the arguments of the second call. -/
theorem decodings_not_match :
    ∃ s, Reached (step usleep xdrNullCallmsg) anyStep (start 6 4000 .idle) s ∧
      ¬∀ d ∈ s.decodings, d.found = d.args := by
  have hrun : (exec (step usleep xdrNullCallmsg) anyStep (start 6 4000 .idle)
      (twoCalls ++ [.svcPoll, .recv, .dispatch, .getargs 0 (xdrWords 1), .endGetargs 0, .wait, .wait, .stat,
        .recv, .dispatch, .wait, .wait, .stat, .getargs 1 (xdrWords 1)])).map decodedRight =
      some [true, false] := by decide +kernel
  obtain ⟨s, hs, hright⟩ := Option.map_eq_some_iff.mp hrun
  refine ⟨s, reached_of_exec _ _ .start _ hs, fun hall => ?_⟩
  have hmem : false ∈ decodedRight s := by
    rw [hright]
    decide
  obtain ⟨d, hd, hno⟩ := List.mem_map.mp hmem
  exact of_decide_eq_false hno (hall d hd)

/-- The first worker returns before the second call is handed over. -/
theorem decodings_match_returned :
    ∃ s, Reached (step usleep xdrNullCallmsg) (ArgsSafe usleep) (start 6 4000 .idle) s ∧
      decodedRight s = [true, true] ∧ ∀ d ∈ s.decodings, d.found = d.args := by
  have hrun : (exec (step usleep xdrNullCallmsg) (ArgsSafe usleep) (start 6 4000 .idle)
      (twoCalls ++ [.svcPoll, .recv, .dispatch, .getargs 0 (xdrWords 1), .endGetargs 0, .wait, .wait,
        .reply 0 false, .ret 0, .stat, .recv, .dispatch, .wait, .getargs 1 (xdrWords 1), .endGetargs 1, .wait,
        .stat])).map decodedRight = some [true, true] := by decide +kernel
  obtain ⟨s, hs, hright⟩ := Option.map_eq_some_iff.mp hrun
  have hreached := reached_of_exec _ _ .start _ hs
  exact ⟨s, hreached, hright, decodings_match hreached⟩

end TcpServer

end RpcMt.Tcp
