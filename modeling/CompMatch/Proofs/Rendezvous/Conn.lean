/-
The protocol of each receive request of a process.

Every receive request that is connected, or may come to be, is followed by a protocol
of its own, whatever the process does for its other requests (`Conn`).  A step of the
process, of a sender or of an operation that lands is one step of that protocol, or
none (`Linked`).  What breaks that is said in `World.lean`.
-/
import CompMatch.Proofs.Rendezvous.Control
import CompMatch.Proofs.Rendezvous.Pair
import CompMatch.Rendezvous.World

namespace CompMatch.Rendezvous

/-! ### What a receive request is to its sender -/

/-- A receive request that moves data over RDMA. -/
structure Connected (p : Proc) (r : Rid) (a : Proto Unit) : Prop where
  rel : RecvRel (p.recvPc r) (p.prog r) (p.view r) a
  dataAddr : (p.reqs r).remoteDataAddr = (p.counterpart r).dataAddr
  flagAddr : (p.reqs r).remoteFlagAddr = (p.counterpart r).flagAddr

/-- A receive request that is searching for its connection.  Its first operation does not go over
RDMA, so for the protocol the receiver rests. -/
structure Searching (p : Proc) (r : Rid) (a : Proto Unit) : Prop where
  rest : a.recv = .rest
  one : a.recvNumber = 1
  number : (p.reqs r).operationNumber = if p.active r = true then 1 else 0
  flag : a.recvFlag = (p.reqs r).flag
  pending : (p.view r).worker.pending = []
  unheld : Unheld (p.reqs r)
  info : (p.reqs r).remoteDataAddr = 0 ∨
    ((p.reqs r).remoteDataAddr = (p.counterpart r).dataAddr ∧
      (p.reqs r).remoteFlagAddr = (p.counterpart r).flagAddr)

/-- The receiver's side of the protocol. -/
structure Receives (p : Proc) (r : Rid) (a : Proto Unit) : Prop where
  connected : (p.reqs r).type = .recv → Connected p r a
  searching : (p.reqs r).type = .recvSearch → Searching p r a

/-- The sender's side of the protocol, and where its operations go. -/
structure Sends (q : Peer) (buf own : Addr) (peer : Addr) (a : Proto Unit) : Prop where
  rel : SendRel q.pc q.loc a
  dataAddr : q.loc.req.remoteDataAddr = buf
  flagAddr : q.loc.req.remoteFlagAddr = own
  ownFlag : q.loc.req.flagAddr = peer

/-- The protocol that request `r` and its sender carry out. -/
structure Conn (w : World) (r : Rid) (a : Proto Unit) : Prop where
  reached : Reach Proto.step anyStep (Proto.Init 1) a
  sends : Sends (w.peers r) (w.proc.reqs r).buf (w.proc.reqs r).flagAddr
    (w.proc.counterpart r).flagAddr a
  receives : Receives w.proc r a
  landed : a.landed = w.landed r

/-- The protocol takes one step, or none. -/
def Linked (a a' : Proto Unit) : Prop := a' = a ∨ ∃ act, a.step act = some a'

theorem Linked.refl (a : Proto Unit) : Linked a a := Or.inl rfl

theorem Linked.reached {a a' : Proto Unit} (h : Linked a a')
    (ha : Reach Proto.step anyStep (Proto.Init 1) a) :
    Reach Proto.step anyStep (Proto.Init 1) a' := by
  rcases h with rfl | ⟨act, hs⟩
  · exact ha
  · exact .step ha trivial hs

/-- What holds of every process and its senders. -/
structure World.Inv (w : World) : Prop where
  shape : w.proc.Shape
  known : w.proc.Known
  landed : ∀ r, w.proc.nextRid ≤ r → w.landed r = []
  conn : ∀ r < w.proc.nextRid, w.proc.Tracked r → ∃ a, Conn w r a

/-! ### The receiver's side under the steps of its process -/

section
variable {p p' : Proc} {r : Rid} {a : Proto Unit}

/-- The protocol as it goes on elsewhere. -/
theorem RecvRel.of_recv {a' : Proto Unit} {pc : RecvPc} {prog : Option Point} {l : Local RdmaOp}
    (h : RecvRel pc prog l a) (hs : a'.recv = a.recv) (hn : a'.recvNumber = a.recvNumber)
    (hf : a'.recvFlag = a.recvFlag) : RecvRel pc prog l a' := by
  obtain ⟨fl, hC, hA⟩ := h.sim
  exact ⟨⟨fl, hC, by rw [hs]; exact hA⟩, hn.trans h.number, hf.trans h.flag⟩

theorem Sends.of_send {q : Peer} {buf own peer : Addr} {a' : Proto Unit} (h : Sends q buf own peer a)
    (hs : a'.send = a.send) (hn : a'.sendNumber = a.sendNumber) (hf : a'.sendFlag = a.sendFlag) :
    Sends q buf own peer a' := by
  obtain ⟨fl, hC, hA⟩ := h.rel.sim
  exact ⟨⟨⟨fl, hC, by rw [hs]; exact hA⟩, hn.trans h.rel.number, hf.trans h.rel.flag⟩, h.dataAddr,
    h.flagAddr, h.ownFlag⟩

/-- Outside the fetching branch of `progress_recv_request`, it does not matter whether the process
is in that function. -/
theorem RecvRel.calm {pc : RecvPc} {prog prog' : Option Point} {l : Local RdmaOp}
    (h : RecvRel pc prog l a) (hp : Proc.Calm prog) (hp' : Proc.Calm prog') :
    RecvRel pc prog' l a := by
  obtain ⟨fl, hC, hA⟩ := h.sim
  refine ⟨⟨fl, hC, ?_⟩, h.number, h.flag⟩
  rcases hp with rfl | rfl | rfl <;> rcases hp' with rfl | rfl | rfl <;> exact hA

theorem Receives.unmoved (h : Receives p r a) (hu : Proc.Unmoved p p' r)
    (hc : p'.counterpart r = p.counterpart r) : Receives p' r a where
  connected ht := by
    have hcon := h.connected (hu.type ▸ ht)
    refine ⟨?_, by rw [hu.alike.remoteDataAddr, hc, hcon.dataAddr],
      by rw [hu.alike.remoteFlagAddr, hc, hcon.flagAddr]⟩
    have hrel : RecvRel (p.recvPc r) (p.prog r) (p'.view r) a :=
      hcon.rel.mono hu.alike hu.pending hu.clock hu.barrier
    rw [hu.pc]
    rcases hu.prog with hp | ⟨hp, hp'⟩
    · rw [hp]
      exact hrel
    · exact hrel.calm hp hp'
  searching ht := by
    have hsr := h.searching (hu.type ▸ ht)
    have hact : p'.active r = p.active r := by
      rcases hu.active with ha | ha
      · exact ha
      · exact absurd (hu.type ▸ ht) ha
    refine ⟨hsr.rest, hsr.one, ?_, hsr.flag.trans hu.alike.flag.symm, hu.pending.trans hsr.pending,
      ⟨hu.alike.dataTransfer.trans hsr.unheld.1, hu.alike.flagTransfer.trans hsr.unheld.2⟩, ?_⟩
    · rw [hu.alike.operationNumber, hact]
      exact hsr.number
    · rw [hu.alike.remoteDataAddr, hu.alike.remoteFlagAddr, hc]
      exact hsr.info

/-- While functions are called to make progress, the receiver is not in the middle of anything
else. -/
theorem recvPc_pauses (hS : p.Shape) {pt : Point} (h : p.prog r = some pt) : (p.recvPc r).Pauses := by
  have hne : p.nested ≠ [] := by
    intro hn
    simp [Proc.prog, hn] at h
  have hp := hS.pauses hne
  unfold Proc.recvPc RecvPc.Pauses
  split
  · split
    · rename_i hcall
      simp [hcall, Call.pauses] at hp
    · rename_i q w hcall
      split
      · cases w <;> simp [hcall, Call.pauses] at hp ⊢
      · exact Or.inr (Or.inl rfl)
    · split
      · exact Or.inl rfl
      · exact Or.inr (Or.inl rfl)
    · exact Or.inr (Or.inl rfl)
  · exact Or.inl rfl

theorem prog_fetching (hS : p.Shape) {pt : Point} (h : p.prog r = some pt) : (p.reqs r).type = .recv := by
  unfold Proc.prog at h
  split at h
  · rename_i q pt' rest hn
    split at h
    · rename_i hq
      subst hq
      exact hS.fetching q pt' (by rw [hn]; exact List.mem_cons_self ..)
    · simp at h
  · simp at h

/-- What a step of the protocol for the receiver leaves to the sender. -/
structure Keeps (a a' : Proto Unit) : Prop where
  linked : Linked a a'
  send : a'.send = a.send
  sendNumber : a'.sendNumber = a.sendNumber
  sendFlag : a'.sendFlag = a.sendFlag
  landed : a'.landed = a.landed

theorem RecvFollows.keeps {s : RecvStage} {f : Int} (h : RecvFollows a s f) : Keeps a (a.recvTo s f) := by
  refine ⟨?_, rfl, rfl, rfl, rfl⟩
  rcases h with ⟨rfl, rfl⟩ | hs
  · exact .refl a
  · exact Or.inr hs

/-- The protocol does not move. -/
theorem Keeps.refl (a : Proto Unit) : Keeps a a := ⟨.refl a, rfl, rfl, rfl, rfl⟩

/-- Outside its Start and its Wait a connected request is where `Pair.lean` has it idle. -/
theorem Connected.at_idle (h : Connected p r a) (hact : p.active r = false) :
    ∃ fl, Carries .get (p.view r) fl ∧ RecvAt (p.view r) fl a.recv .idle := by
  have hidle : p.recvPc r = .idle := by simp [Proc.recvPc, hact]
  obtain ⟨fl, hC, hA⟩ := h.rel.sim
  refine ⟨fl, hC, ?_⟩
  rw [hidle] at hA
  cases hprog : p.prog r with
  | none => rwa [hprog] at hA
  | some pt =>
      rw [hprog] at hA
      cases pt with
      | test => exact hA
      | progress => exact hA
      | _ => exact absurd hA.2.2 (by simp)

/-- There it rests, and holds no handle. -/
theorem Connected.idle (h : Connected p r a) (hact : p.active r = false) :
    a.recv = .rest ∧ Unheld (p.reqs r) := by
  obtain ⟨fl, -, hat⟩ := h.at_idle hact
  exact ⟨hat.1, hat.2.2⟩

/-- Nothing it has posted is under way. -/
theorem Connected.pending (h : Connected p r a) (hact : p.active r = false) :
    (p.view r).worker.pending = [] := by
  obtain ⟨fl, hC, -, rfl, -⟩ := h.at_idle hact
  exact hC.pending

/-- A step of `b_recv` or `e_recv`. -/
theorem Connected.runs {imm : Bool} (hJ : Proto.Joint a) (h : Connected p r a)
    (hprog : p.prog r = none) (hprog' : p'.prog r = none)
    (hc : p'.counterpart r = p.counterpart r)
    (hrun : recvRun imm (p.recvPc r) (p.view r) = some (p'.recvPc r, p'.view r)) :
    ∃ a', Keeps a a' ∧ Connected p' r a' ∧ SameLink (p.reqs r) (p'.reqs r) := by
  have hrel : RecvRel (p.recvPc r) none (p.view r) a := hprog ▸ h.rel
  have haddr : SameLink (p.reqs r) (p'.reqs r) →
      (p'.reqs r).remoteDataAddr = (p'.counterpart r).dataAddr ∧
        (p'.reqs r).remoteFlagAddr = (p'.counterpart r).flagAddr := by
    intro hl
    rw [hl.remoteDataAddr, hl.remoteFlagAddr, hc]
    exact ⟨h.dataAddr, h.flagAddr⟩
  by_cases hidle : p'.recvPc r = .idle
  · rw [hidle] at hrun
    obtain ⟨hstep, hrel', -, hlink, -, -⟩ := hrel.run_return hrun
    refine ⟨a.complete, ⟨Or.inr ⟨_, hstep⟩, rfl, rfl, rfl, rfl⟩,
      ⟨?_, (haddr hlink).1, (haddr hlink).2⟩, hlink⟩
    rw [hidle, hprog']
    exact hrel'
  · obtain ⟨s', hm, hrel', hlink, -⟩ := hrel.run hJ hrun hidle
    refine ⟨_, hm.follows.keeps, ⟨?_, (haddr hlink).1, (haddr hlink).2⟩, hlink⟩
    rw [hprog']
    exact hrel'

/-- **What a step of the process leaves of a request**, unless it leaves the flush of
`progress_recv_request` incomplete while the request is being waited for. -/
theorem Receives.step {ans : Answer} (hS : p.Shape) (hJ : Proto.Joint a) (h : Receives p r a)
    (hc : p'.counterpart r = p.counterpart r)
    (hflush : p.prog r = some .flush → p.recvPc r = .wait .poll →
      ucpEpFlushNb (p.toEp r) ans.imm p.worker = none)
    (hs : Proc.ProcStep ans p p' r) :
    ∃ a', Keeps a a' ∧ Receives p' r a' ∧ (p'.reqs r).buf = (p.reqs r).buf ∧
      (p'.reqs r).flagAddr = (p.reqs r).flagAddr := by
  have of_recv : ∀ {a' : Proto Unit}, (p'.reqs r).type = .recv → Connected p' r a' → Receives p' r a' :=
    fun ht hcon => ⟨fun _ => hcon, fun hsr => by simp [ht] at hsr⟩
  cases hs with
  | unmoved hu => exact ⟨a, .refl a, h.unmoved hu hc, hu.alike.buf, hu.alike.flagAddr⟩
  | runs imm hprog hprog' htype hrecv hrun =>
      obtain ⟨a', hk, hcon, hlink⟩ := (h.connected hrecv).runs hJ hprog hprog' hc hrun
      exact ⟨a', hk, of_recv (htype.trans hrecv) hcon, hlink.buf, hlink.flagAddr⟩
  | fetches imm pt o hprog hprog' htype hpc hactive hstep hfl =>
      have hrecv := prog_fetching hS hprog
      have hcon := h.connected hrecv
      have hrel : RecvRel (p.recvPc r) (some pt) (p.view r) a := hprog ▸ hcon.rel
      have hnone : pt = .flush → p.recvPc r = .wait .poll →
          (p'.view r).req.ucxRequestDataTransfer = none :=
        fun hpt hw => (hfl hpt).trans (hflush (hpt ▸ hprog) hw)
      obtain ⟨s', hm, hrel', hlink⟩ := hrel.progress hJ (recvPc_pauses hS hprog) hstep hnone
      have hlink' : SameLink (p.reqs r) (p'.reqs r) := hlink
      refine ⟨_, hm.keeps, of_recv (htype.trans hrecv) ⟨?_, ?_, ?_⟩, hlink.buf, hlink.flagAddr⟩
      · have hprog'' : p'.prog r = o.point := hprog'
        rw [hpc, hprog'']
        exact hrel'
      · rw [hlink'.remoteDataAddr, hc, hcon.dataAddr]
      · rw [hlink'.remoteFlagAddr, hc, hcon.flagAddr]
  | informed hreq hworker hpc hprog hprog' hactive =>
      refine ⟨a, .refl a, ⟨fun ht => ?_, fun ht => ?_⟩, by rw [hreq], by rw [hreq]⟩
      · have hcon := h.connected (by rw [hreq] at ht; exact ht)
        have halike : Alike (p.reqs r) (p'.reqs r) := by
          rw [hreq]
          exact ⟨⟨rfl, rfl, rfl, rfl, hcon.dataAddr.symm, hcon.flagAddr.symm⟩, rfl, rfl, rfl, rfl⟩
        refine ⟨?_, by rw [hreq, hc], by rw [hreq, hc]⟩
        rw [hpc, hprog', ← hprog]
        exact hcon.rel.mono halike (by simp only [Proc.view, Local.view, Proc.loc, hworker])
          (by simp only [Proc.view, Local.view, Proc.loc, hworker]; exact Nat.le_refl _)
          (by simp only [Proc.view, Local.view, Proc.loc, hworker]; exact Nat.le_refl _)
      · have hsr := h.searching (by rw [hreq] at ht; exact ht)
        refine ⟨hsr.rest, hsr.one, ?_, ?_, ?_, ?_, Or.inr ?_⟩
        · rw [hreq, hactive]
          exact hsr.number
        · rw [hreq]
          exact hsr.flag
        · simpa only [Proc.view, Local.view, Proc.loc, hworker] using hsr.pending
        · rw [hreq]
          exact ⟨hsr.unheld.1, hsr.unheld.2⟩
        · rw [hreq, hc]
          exact ⟨rfl, rfl⟩
  | decides hsearch hactive hreq hworker hpc hprog' =>
      have hsr := h.searching hsearch
      refine ⟨a, .refl a, ⟨fun ht => ?_, fun ht => ?_⟩, by rw [hreq], by rw [hreq]⟩
      · have hne : (p.reqs r).remoteDataAddr ≠ 0 := by
          intro h0
          rw [hreq] at ht
          simp [h0] at ht
        obtain ⟨hda, hfa⟩ := hsr.info.resolve_left hne
        have hpend : (p'.view r).worker.pending = [] := by
          simpa only [Proc.view, Local.view, Proc.loc, hworker] using hsr.pending
        have hnum : (p'.reqs r).operationNumber = 1 := by
          rw [hreq]
          simpa [hactive] using hsr.number
        refine ⟨⟨⟨.empty, .of_empty hpend, ?_⟩, hsr.one.trans hnum.symm, ?_⟩, ?_, ?_⟩
        · rw [hpc, hprog']
          refine ⟨hsr.rest, rfl, ?_⟩
          show Unheld (p'.reqs r)
          rw [hreq]
          exact ⟨hsr.unheld.1, hsr.unheld.2⟩
        · show a.recvFlag = (p'.reqs r).flag
          rw [hreq]
          exact hsr.flag
        · rw [hreq, hc]
          exact hda
        · rw [hreq, hc]
          exact hfa
      · rw [hreq] at ht
        simp only at ht
        split at ht <;> simp at ht

end

/-! ### Steps of the world -/

section
variable {w w' : World} {r : Rid} {a : Proto Unit}

/-- A request that the step is not about. -/
theorem Conn.elsewhere (h : Conn w r a) (hu : Proc.Unmoved w.proc w'.proc r)
    (hc : w'.proc.counterpart r = w.proc.counterpart r) (hq : w'.peers r = w.peers r)
    (hl : w'.landed r = w.landed r) : Conn w' r a where
  reached := h.reached
  sends := by
    rw [hq, hc, hu.alike.buf, hu.alike.flagAddr]
    exact h.sends
  receives := h.receives.unmoved hu hc
  landed := h.landed.trans hl.symm

/-- Nothing of the request changes, and no function begins to work on it. -/
theorem Proc.Unmoved.of_same {p p' : Proc} (hreq : p'.reqs r = p.reqs r) (hw : p'.worker = p.worker)
    (hpc : p'.recvPc r = p.recvPc r) (hprog : p'.prog r = p.prog r) (ha : p'.active r = p.active r) :
    Proc.Unmoved p p' r where
  alike := hreq ▸ .refl _
  type := by rw [hreq]
  pending := by simp only [Proc.view, Local.view, Proc.loc, hw]
  clock := hw ▸ Nat.le_refl _
  barrier := hw ▸ Nat.le_refl _
  pc := hpc
  prog := Or.inl hprog
  active := Or.inl ha

/-- The user calls a function for another request. -/
theorem Proc.Unmoved.of_call {p p' : Proc} (hfree : p.call = .none)
    (hreq : p'.reqs r = p.reqs r) (hw : p'.worker = p.worker) (hcall : p'.call.recvOf ≠ some r)
    (hn : p'.nested = p.nested) (ha : p'.active r = p.active r) : Proc.Unmoved p p' r :=
  .of_same hreq hw (Proc.recvPc_other (by simp [hfree, Call.recvOf]) hcall ha)
    (by simp only [Proc.prog, hn]) ha

/-- What the protocol of a new connection starts from. -/
def Proto.connected : Proto Unit where
  sendNumber := 1
  recvNumber := 1
  send := .rest
  recv := .rest
  sendFlag := 0
  recvFlag := 0
  last := 1
  landed := []
  sendBuf := ()
  recvBuf := ()
  sent := fun _ => ()
  received := fun _ => none

theorem Proto.connected_init : Proto.Init 1 Proto.connected :=
  ⟨rfl, rfl, rfl, rfl, by decide, by decide, rfl, rfl, fun _ => rfl⟩

/-- **A new receive request.** -/
theorem conn_recvInit {args : Proc.InitArgs} {info : RdmaInfo} {size : Nat} (h : World.Inv w) :
    Conn ((w.setProc (w.proc.initRequest .recvSearch args info).1).setPeer w.proc.nextRid
      (.connected args info size)) w.proc.nextRid .connected := by
  have hreq : ∀ {q : Rid}, q = w.proc.nextRid →
      ((w.proc.initRequest .recvSearch args info).1.reqs q).buf = args.buf ∧
      ((w.proc.initRequest .recvSearch args info).1.reqs q).flagAddr = args.flagAddr ∧
      (w.proc.initRequest .recvSearch args info).1.counterpart q = info := by
    rintro q rfl
    simp [Proc.initRequest]
  obtain ⟨hbuf, hflag, hinfo⟩ := hreq rfl
  refine ⟨.init Proto.connected_init, ⟨⟨⟨.empty, .of_empty ?_, ?_⟩, ?_, ?_⟩, ?_, ?_, ?_⟩,
    ⟨fun ht => ?_, fun _ => ?_⟩, ?_⟩
  · simp [World.setPeer, Peer.connected, Worker.idle]
  · simp only [World.setPeer, Function.update_self, Peer.connected]
    exact ⟨rfl, rfl, rfl, rfl⟩
  · simp [World.setPeer, Peer.connected, Proto.connected]
  · simp [World.setPeer, Peer.connected, Proto.connected]
  · simp only [World.setPeer, World.setProc, Function.update_self, Peer.connected, hbuf]
  · simp only [World.setPeer, World.setProc, Function.update_self, Peer.connected, hflag]
  · simp only [World.setPeer, World.setProc, Function.update_self, Peer.connected, hinfo]
  · simp [World.setPeer, World.setProc, Proc.initRequest] at ht
  · have hpend : ((w.proc.initRequest .recvSearch args info).1.view w.proc.nextRid).worker.pending =
        [] := by
      simp only [Proc.view, Local.view, Proc.loc, Worker.view, List.filterMap_eq_nil_iff]
      intro x hx
      have hlt := h.known.pending x hx
      simp only [Worker.Posted.view, operationOf, Option.map_eq_none_iff]
      rw [if_neg (Nat.ne_of_lt hlt)]
    exact ⟨rfl, rfl, by simp [World.setPeer, World.setProc, Proc.initRequest],
      by simp [World.setPeer, World.setProc, Proc.initRequest, Proto.connected], hpend,
      by constructor <;> simp [World.setPeer, World.setProc, Proc.initRequest],
      Or.inl (by simp [World.setPeer, World.setProc, Proc.initRequest])⟩
  · exact (h.landed _ (Nat.le_refl _)).symm

/-- The requests before a new one. -/
theorem unmoved_initRequest {p : Proc} (type : RequestType) (args : Proc.InitArgs) (info : RdmaInfo)
    (hr : r < p.nextRid) : Proc.Unmoved p (p.initRequest type args info).1 r := by
  have hne : r ≠ p.nextRid := Nat.ne_of_lt hr
  have ha : (p.initRequest type args info).1.active r = p.active r := by
    simp [Proc.initRequest, hne]
  refine .of_same (by simp [Proc.initRequest, hne]) rfl ?_ rfl ha
  simp only [Proc.recvPc, ha]
  rfl

theorem counterpart_initRequest {p : Proc} {type : RequestType} {args : Proc.InitArgs}
    {info : RdmaInfo} (hr : r < p.nextRid) :
    (p.initRequest type args info).1.counterpart r = p.counterpart r := by
  simp [Proc.initRequest, Nat.ne_of_lt hr]

/-- A new request leaves the process in shape. -/
theorem shape_initRequest {p : Proc} (type : RequestType) (args : Proc.InitArgs) (info : RdmaInfo)
    (hS : p.Shape) (hK : p.Known) (hc : p.call = .none) (hn : p.nested = []) :
    (p.initRequest type args info).1.Shape ∧ (p.initRequest type args info).1.Known := by
  refine ⟨⟨hS.barrier, ?_, ?_, ?_, ?_⟩, ⟨?_, ?_, ?_, ?_⟩⟩
  · simp only [Proc.Typed, Proc.initRequest, hc]
  · simp [Proc.initRequest, hn]
  · simp [Proc.initRequest, hn]
  · simp [Proc.initRequest, hn]
  · intro q hq
    simp only [Proc.initRequest, List.mem_cons] at hq ⊢
    rcases hq with rfl | hq
    · exact Nat.lt_succ_self _
    · exact Nat.lt_succ_of_lt (hK.list q hq)
  · simp [Proc.initRequest, hc, Call.rid]
  · simp [Proc.initRequest, hn]
  · intro x hx
    exact Nat.lt_succ_of_lt (hK.pending x hx)

/-! ### Start and Wait -/

/-- The functions `MPIOPT_Start_internal` calls, and the requests they work on. -/
theorem start_frame {p : Proc} (q : Rid) :
    (p.start q).1.worker = p.worker ∧ (p.start q).1.nested = p.nested ∧
      Proc.Kept p (p.start q).1 ∧ (p.start q).1.active = Function.update p.active q true ∧
      (∀ r, r ≠ q → (p.start q).1.reqs r = p.reqs r) := by
  have hreq : ∀ (f : MpioptRequest → MpioptRequest) (r : Rid), r ≠ q → (p.setReq q f).reqs r = p.reqs r :=
    fun f r hr => Function.update_of_ne hr ..
  unfold Proc.start
  split <;>
    refine ⟨rfl, rfl, ⟨rfl, rfl, rfl⟩, rfl, fun r hr => ?_⟩ <;>
    simp [Proc.setCall, Proc.postBackup, Proc.assert, Proc.setReq, hr]

theorem start_type {p : Proc} (q r : Rid) : ((p.start q).1.reqs r).type = (p.reqs r).type := by
  unfold Proc.start
  by_cases hr : r = q
  · subst hr
    split <;> simp [Proc.setCall, Proc.postBackup, Proc.assert, Proc.setReq]
  · split <;> simp [Proc.setCall, Proc.postBackup, Proc.assert, Proc.setReq, hr]

/-- Start leaves the process in shape. -/
theorem shape_start {p : Proc} {q : Rid} (hS : p.Shape) (hK : p.Known) (hc : p.call = .none)
    (hn : p.nested = []) (hq : q < p.nextRid) : (p.start q).1.Shape ∧ (p.start q).1.Known := by
  obtain ⟨hw, hnest, hk, hact, -⟩ := start_frame (p := p) q
  have hty := start_type (p := p) q q
  have hnil : (p.start q).1.nested = [] := hnest.trans hn
  have htrue : (p.start q).1.active q = true := by rw [hact, Function.update_self]
  have hcall : (p.start q).1.Typed ∧ ∀ r, (p.start q).1.call.rid = some r → r < p.nextRid := by
    constructor
    · unfold Proc.Typed
      split <;> rename_i heq <;> unfold Proc.start at heq <;> split at heq <;>
        simp_all [Proc.setCall, Proc.postBackup, Proc.assert, Proc.setReq]
    · unfold Proc.start
      split <;> simp [Proc.setCall, Proc.postBackup, Proc.assert, Proc.setReq, Call.rid, hc, hq]
  refine ⟨⟨by rw [hw]; exact hS.barrier, hcall.1, by simp [hnil], by simp [hnil], by simp [hnil]⟩,
    ⟨?_, ?_, by simp [hnil], ?_⟩⟩
  · rw [hk.requestList, hk.nextRid]
    exact hK.list
  · rw [hk.nextRid]
    exact hcall.2
  · rw [hw, hk.nextRid]
    exact hK.pending

theorem shape_wait {p : Proc} {q : Rid} (hS : p.Shape) (hK : p.Known)
    (hn : p.nested = []) (hq : q < p.nextRid) (ha : p.active q = true) :
    (p.wait q).Shape ∧ (p.wait q).Known := by
  have hcall : (p.wait q).Typed ∧ ∀ r, (p.wait q).call.rid = some r → r < p.nextRid := by
    unfold Proc.wait
    split <;> rename_i heq <;>
      simp [Proc.setCall, Proc.assert, Proc.Typed, Call.rid, heq, ha, hq, WaitRecvSearch.undecided]
  have hframe : (p.wait q).worker = p.worker ∧ (p.wait q).nested = p.nested ∧
      Proc.Kept p (p.wait q) := by
    unfold Proc.wait
    split <;> exact ⟨rfl, rfl, rfl, rfl, rfl⟩
  obtain ⟨hw, hnest, hk⟩ := hframe
  have hnil : (p.wait q).nested = [] := hnest.trans hn
  refine ⟨⟨by rw [hw]; exact hS.barrier, hcall.1, by simp [hnil], by simp [hnil], by simp [hnil]⟩,
    ⟨?_, ?_, by simp [hnil], ?_⟩⟩
  · rw [hk.requestList, hk.nextRid]
    exact hK.list
  · rw [hk.nextRid]
    exact hcall.2
  · rw [hw, hk.nextRid]
    exact hK.pending

/-- The call a Start or a Wait makes works on its own request. -/
theorem recvOf_start {p : Proc} {q : Rid} (hq : q ≠ r) (hc : p.call = .none) :
    (p.start q).1.call.recvOf ≠ some r := by
  unfold Proc.start
  split <;> simp [Proc.setCall, Proc.postBackup, Proc.assert, Proc.setReq, Call.recvOf, hc, hq]

theorem recvOf_wait {p : Proc} {q : Rid} (hq : q ≠ r) : (p.wait q).call.recvOf ≠ some r := by
  unfold Proc.wait
  split <;> simp [Proc.setCall, Proc.assert, Call.recvOf, hq]

theorem wait_frame {p : Proc} (q : Rid) :
    (p.wait q).worker = p.worker ∧ (p.wait q).nested = p.nested ∧ (p.wait q).active = p.active ∧
      (p.wait q).reqs = p.reqs ∧ Proc.Kept p (p.wait q) := by
  unfold Proc.wait
  split <;> exact ⟨rfl, rfl, rfl, rfl, rfl, rfl, rfl⟩

/-- **Start on the request itself.** -/
theorem receives_start {p : Proc} (h : Receives p r a) (hr : p.Tracked r) (hn : p.nested = [])
    (ha : p.active r = false) :
    ∃ a', Keeps a a' ∧ Receives (p.start r).1 r a' ∧
      ((p.start r).1.reqs r).buf = (p.reqs r).buf ∧
      ((p.start r).1.reqs r).flagAddr = (p.reqs r).flagAddr := by
  have hidle : p.recvPc r = .idle := by simp [Proc.recvPc, ha]
  have hprog : p.prog r = none := by simp [Proc.prog, hn]
  rcases hr with ht | ht
  · have hcon := h.connected ht
    have hrel := hcon.rel
    rw [hidle, hprog] at hrel
    obtain ⟨hstep, hrel'⟩ := hrel.countStart
    have hst : (p.start r).1 = { p.setReq r fun q => { q with
        operationNumber := q.operationNumber + 1 } with
          active := Function.update p.active r true, call := .bRecv r .test } := by
      unfold Proc.start
      rw [ht]
      rfl
    rw [hst]
    refine ⟨a.startRecv, ⟨Or.inr ⟨_, hstep⟩, rfl, rfl, rfl, rfl⟩,
      ⟨fun _ => ⟨?_, ?_, ?_⟩, fun hsr => ?_⟩, ?_, ?_⟩
    · have hpc : Proc.recvPc { p.setReq r fun q => { q with
          operationNumber := q.operationNumber + 1 } with
            active := Function.update p.active r true, call := .bRecv r .test } r =
          .start .test := by
        simp [Proc.recvPc]
      rw [hpc]
      have hview : Proc.view { p.setReq r fun q => { q with
          operationNumber := q.operationNumber + 1 } with
            active := Function.update p.active r true, call := .bRecv r .test } r =
          (p.view r).countStart := by
        simp [Proc.view, Proc.loc, Local.view, Local.countStart, Proc.setReq]
      rw [hview]
      have hprog' : Proc.prog { p.setReq r fun q => { q with
          operationNumber := q.operationNumber + 1 } with
            active := Function.update p.active r true, call := .bRecv r .test } r = none := by
        simp [Proc.prog, Proc.setReq, hn]
      rw [hprog']
      exact hrel'
    · simpa [Proc.setReq] using hcon.dataAddr
    · simpa [Proc.setReq] using hcon.flagAddr
    · simp [Proc.setReq, ht] at hsr
    · simp [Proc.setReq]
    · simp [Proc.setReq]
  · have hsr := h.searching ht
    have hst : (p.start r).1 = { p.setReq r fun q => { q with
        operationNumber := q.operationNumber + 1 } with
          active := Function.update p.active r true, call := .startRecv r .progress } := by
      unfold Proc.start
      rw [ht]
      rfl
    rw [hst]
    refine ⟨a, .refl a, ⟨fun hrecv => ?_, fun _ => ⟨hsr.rest, hsr.one, ?_, ?_, ?_, ?_, ?_⟩⟩, ?_, ?_⟩
    · simp [Proc.setReq, ht] at hrecv
    · simp [Proc.setReq, hsr.number, ha]
    · simpa [Proc.setReq] using hsr.flag
    · simpa [Proc.view, Proc.loc, Local.view, Proc.setReq] using hsr.pending
    · constructor <;> simp [Proc.setReq, hsr.unheld.1, hsr.unheld.2]
    · simpa [Proc.setReq] using hsr.info
    · simp [Proc.setReq]
    · simp [Proc.setReq]

/-- **Wait on the request itself.** -/
theorem receives_wait {p : Proc} (h : Receives p r a) (hc : p.call = .none) (hn : p.nested = [])
    (ha : p.active r = true) : Receives (p.wait r) r a := by
  obtain ⟨hw, hnest, hact, hreqs, hk⟩ := wait_frame (p := p) r
  refine ⟨fun ht => ?_, fun ht => ?_⟩
  · rw [hreqs] at ht
    have hcon := h.connected ht
    have hwait : p.wait r = p.setCall (.eRecv r .flagTransfer) := by
      unfold Proc.wait
      rw [ht]
    have hstarted : p.recvPc r = .started := by simp [Proc.recvPc, ha, hc]
    have hpc : (p.setCall (.eRecv r .flagTransfer)).recvPc r = .wait .flagTransfer := by
      simp [Proc.recvPc, Proc.setCall, ha]
    rw [hwait]
    refine ⟨?_, hcon.dataAddr, hcon.flagAddr⟩
    obtain ⟨fl, hC, hA⟩ := hcon.rel.sim
    have hprog : p.prog r = none := by simp [Proc.prog, hn]
    have hprog' : (p.setCall (.eRecv r .flagTransfer)).prog r = none := hprog
    rw [hpc, hprog']
    rw [hstarted, hprog] at hA
    exact ⟨⟨fl, hC, hA⟩, hcon.rel.number, hcon.rel.flag⟩
  · rw [hreqs] at ht
    have hsr := h.searching ht
    refine ⟨hsr.rest, hsr.one, ?_, ?_, ?_, ?_, ?_⟩
    · rw [hreqs, hact]
      exact hsr.number
    · rw [hreqs]
      exact hsr.flag
    · have hv : ((p.wait r).view r).worker = (p.view r).worker := by
        simp only [Proc.view, Local.view, Proc.loc, hw]
      rw [hv]
      exact hsr.pending
    · rw [hreqs]
      exact hsr.unheld
    · rw [hreqs, hk.counterpart]
      exact hsr.info

end

/-! ### Operations that land -/

section
variable {w w' : World} {r : Rid} {a : Proto Unit}

/-- Somebody else's operation leaves the worker. -/
theorem unmoved_retire {p : Proc} {i : Nat} {x : Posted (Rid × RdmaOp)}
    (hx : p.worker.enabled? i = some x) (hr : x.op.1 ≠ r) :
    Proc.Unmoved p { p with worker := p.worker.retire i } r where
  alike := .refl _
  type := rfl
  pending := by
    have hnone : operationOf r x.op = none := if_neg hr
    simp only [Proc.view, Local.view, Proc.loc, Worker.view_retire hx hnone]
  clock := Nat.le_refl _
  barrier := Nat.le_refl _
  pc := rfl
  prog := Or.inl rfl
  active := Or.inl rfl

theorem shape_retire {p : Proc} (i : Nat) (hS : p.Shape) (hK : p.Known) :
    Proc.Shape { p with worker := p.worker.retire i } ∧
      Proc.Known { p with worker := p.worker.retire i } :=
  ⟨⟨hS.barrier, hS.typed, hS.pauses, hS.tail, hS.fetching⟩,
    ⟨hK.list, hK.call, hK.nested, fun x hx => hK.pending x (List.mem_of_mem_eraseIdx hx)⟩⟩

/-- What lands for one request does nothing to another. -/
theorem land_frame (q : Rid) (op : RdmaOp) :
    (w.land q op).proc = w.proc ∧ (∀ r, r ≠ q → (w.land q op).peers r = w.peers r) ∧
      ∀ r, r ≠ q → (w.land q op).landed r = w.landed r := by
  unfold World.land
  split
  · exact ⟨rfl, fun _ _ => rfl, fun _ _ => rfl⟩
  · split
    · exact ⟨rfl, fun _ _ => rfl, fun r hr => Function.update_of_ne hr ..⟩
    · exact ⟨rfl, fun _ _ => rfl, fun _ _ => rfl⟩
  · split
    · exact ⟨rfl, fun r hr => Function.update_of_ne hr .., fun _ _ => rfl⟩
    · exact ⟨rfl, fun _ _ => rfl, fun _ _ => rfl⟩

/-- **An operation of the request lands.** -/
theorem conn_lands {i : Nat} {x : Posted (Rid × RdmaOp)} (h : Conn w r a) (hr : w.proc.Tracked r)
    (hx : w.proc.worker.enabled? i = some x) (hq : x.op.1 = r) :
    ∃ a', Linked a a' ∧
      Conn ((w.setProc { w.proc with worker := w.proc.worker.retire i }).land r x.op.2) r a' := by
  have hown : operationOf r x.op = some x.op.2 := if_pos hq
  obtain ⟨j, hj, hretire⟩ := Worker.view_enabled? hx hown
  rcases hr with ht | ht
  · have hcon := h.receives.connected ht
    have hview : Proc.view { w.proc with worker := w.proc.worker.retire i } r =
        (w.proc.view r).retire j := by
      simp only [Proc.view, Local.view, Proc.loc, hretire, Local.retire]
    have hof : ∀ {a' : Proto Unit} {p' : Proc}, p'.reqs = w.proc.reqs →
        p'.counterpart = w.proc.counterpart →
        RecvRel (p'.recvPc r) (p'.prog r) (p'.view r) a' → Receives p' r a' := by
      intro a' p' hreqs hcp hrel
      refine ⟨fun _ => ⟨hrel, ?_, ?_⟩, fun hsr => ?_⟩
      · rw [hreqs, hcp]
        exact hcon.dataAddr
      · rw [hreqs, hcp]
        exact hcon.flagAddr
      · rw [hreqs, ht] at hsr
        simp at hsr
    rcases hcon.rel.lands hj with ⟨hop, s', act, -, hstep, hrel⟩ | ⟨hop, s', hstep, hrel⟩
    · have hop' : x.op.2 = .flag (w.proc.reqs r).operationNumber (w.proc.reqs r).remoteFlagAddr := hop
      have hdst : (w.proc.reqs r).remoteFlagAddr = (w.peers r).loc.req.flagAddr := by
        rw [hcon.flagAddr, h.sends.ownFlag]
      refine ⟨_, Or.inr ⟨_, hstep⟩, .step h.reached trivial hstep, ?_, ?_, ?_⟩
      · rw [hop']
        simp only [World.land, World.setProc, hdst, if_true, World.setPeer, Function.update_self]
        exact ⟨h.sends.rel.setFlag _ s', h.sends.dataAddr, h.sends.flagAddr, h.sends.ownFlag⟩
      · rw [hop']
        simp only [World.land, World.setProc, hdst, if_true, World.setPeer]
        refine hof rfl rfl ?_
        rw [hview]
        exact hrel
      · rw [hop']
        simp only [World.land, World.setProc, hdst, if_true, World.setPeer]
        exact h.landed
    · have hop' : x.op.2 = .get (w.proc.reqs r).operationNumber (w.proc.reqs r).buf
          (w.proc.reqs r).size (w.proc.reqs r).remoteDataAddr := hop
      refine ⟨_, Or.inr ⟨_, hstep⟩, .step h.reached trivial hstep, ?_, ?_, ?_⟩
      · rw [hop']
        simp only [World.land, World.setProc, if_true, World.record]
        exact h.sends.of_send rfl rfl rfl
      · rw [hop']
        simp only [World.land, World.setProc, if_true, World.record]
        refine hof rfl rfl ?_
        rw [hview]
        exact hrel
      · rw [hop']
        simp only [World.land, World.setProc, if_true, World.record, Function.update_self]
        show a.landed ++ [(a.recvNumber, Transfer.get)] = _
        rw [h.landed, hcon.rel.number]
        rfl
  · have hpend := (h.receives.searching ht).pending
    have hmem := (Worker.enabled?_eq_some.mp hj).1
    rw [show ((w.proc.worker.view (operationOf r)).pending) = [] from hpend] at hmem
    simp at hmem

/-- The peer's flag write and its effect on the receiver. -/
theorem Receives.setFlag {p : Proc} {v : Int} (h : Receives p r a) (hv : a.recvFlag ≤ v)
    (s : SendStage) :
    Receives (p.setReq r fun q => { q with flag := v }) r { a with send := s, recvFlag := v } := by
  have htype : ((p.setReq r fun q => { q with flag := v }).reqs r).type = (p.reqs r).type := by
    simp [Proc.setReq]
  refine ⟨fun ht => ?_, fun ht => ?_⟩
  · have hcon := h.connected (htype ▸ ht)
    refine ⟨?_, by simpa [Proc.setReq] using hcon.dataAddr, by simpa [Proc.setReq] using hcon.flagAddr⟩
    have hview : (p.setReq r fun q => { q with flag := v }).view r = (p.view r).setFlag v := by
      simp [Proc.view, Proc.loc, Local.view, Local.setFlag, Proc.setReq]
    rw [hview]
    exact hcon.rel.setFlag hv s
  · have hsr := h.searching (htype ▸ ht)
    refine ⟨hsr.rest, hsr.one, ?_, by simp [Proc.setReq],
      by simpa [Proc.view, Proc.loc, Local.view, Proc.setReq] using hsr.pending, ?_,
      by simpa [Proc.setReq] using hsr.info⟩
    · simp only [Proc.setReq, Function.update_self]
      exact hsr.number
    · constructor <;> simp [Proc.setReq, hsr.unheld.1, hsr.unheld.2]

/-- **An operation of the sender lands.** -/
theorem conn_peerLands {i : Nat} {x : Posted RdmaOp} (h : Conn w r a)
    (hx : (w.peers r).loc.worker.enabled? i = some x) :
    ∃ a', Linked a a' ∧ a'.recvNumber = a.recvNumber ∧
      Conn ((w.setPeer r { w.peers r with loc := (w.peers r).loc.retire i }).landPeer r x.op) r a' := by
  rcases h.sends.rel.lands hx with ⟨hop, s', act, hact, hstep, hrel⟩ | ⟨hop, s', hstep, hrel⟩
  · have hmono := Proto.recvFlag_mono (Proto.reach_joint h.reached) hstep
    refine ⟨_, Or.inr ⟨_, hstep⟩, rfl, .step h.reached trivial hstep, ?_, ?_, ?_⟩ <;> rw [hop] <;>
      simp only [World.landPeer, World.setPeer, World.setProc, h.sends.flagAddr, if_true,
        Function.update_self]
    · refine ⟨hrel, ?_, ?_, h.sends.ownFlag⟩ <;> simp only [Proc.setReq, Function.update_self]
      · exact h.sends.dataAddr
      · exact h.sends.flagAddr
    · exact h.receives.setFlag hmono s'
    · exact h.landed
  · refine ⟨_, Or.inr ⟨_, hstep⟩, rfl, .step h.reached trivial hstep, ?_, ?_, ?_⟩ <;> rw [hop] <;>
      simp only [World.landPeer, World.setPeer, payloadOp, h.sends.dataAddr, if_true, World.record,
        Function.update_self]
    · exact ⟨hrel, h.sends.dataAddr, h.sends.flagAddr, h.sends.ownFlag⟩
    · refine ⟨fun ht => ?_, fun ht => ?_⟩
      · have hcon := h.receives.connected ht
        exact ⟨hcon.rel.of_recv rfl rfl rfl, hcon.dataAddr, hcon.flagAddr⟩
      · have hsr := h.receives.searching ht
        exact ⟨hsr.rest, hsr.one, hsr.number, hsr.flag, hsr.pending, hsr.unheld, hsr.info⟩
    · show a.landed ++ [(a.sendNumber, Transfer.put)] = _
      rw [h.landed, h.sends.rel.number]

/-- What lands for the sender of one request does nothing to another. -/
theorem landPeer_frame (q : Rid) (op : RdmaOp) :
    (∀ r, r ≠ q → (w.landPeer q op).proc.reqs r = w.proc.reqs r) ∧
      (∀ r, ((w.landPeer q op).proc.reqs r).type = (w.proc.reqs r).type) ∧
      (∃ reqs, (w.landPeer q op).proc = { w.proc with reqs := reqs }) ∧
      (w.landPeer q op).peers = w.peers ∧
      ∀ r, r ≠ q → (w.landPeer q op).landed r = w.landed r := by
  unfold World.landPeer
  split
  · split
    · exact ⟨fun _ _ => rfl, fun _ => rfl, ⟨_, rfl⟩, rfl, fun r hr => Function.update_of_ne hr ..⟩
    · exact ⟨fun _ _ => rfl, fun _ => rfl, ⟨_, rfl⟩, rfl, fun _ _ => rfl⟩
  · exact ⟨fun _ _ => rfl, fun _ => rfl, ⟨_, rfl⟩, rfl, fun _ _ => rfl⟩
  · split
    · exact ⟨fun r hr => Function.update_of_ne hr .., fun r => Proc.setReq_type (p := w.proc)
        (f := fun x => { x with flag := (w.peers q).loc.req.flagBuffer }) rfl r, ⟨_, rfl⟩, rfl,
        fun _ _ => rfl⟩
    · exact ⟨fun _ _ => rfl, fun _ => rfl, ⟨_, rfl⟩, rfl, fun _ _ => rfl⟩

/-- A step of the sender's own code, or a call its user makes. -/
theorem conn_peer {q : Peer} (h : Conn w r a) {a' : Proto Unit}
    (hreach : Reach Proto.step anyStep (Proto.Init 1) a') (hrel : SendRel q.pc q.loc a')
    (hlink : SameLink (w.peers r).loc.req q.loc.req ∨ q.loc = (w.peers r).loc.countStart)
    (hs : a'.recv = a.recv) (hn : a'.recvNumber = a.recvNumber) (hf : a'.recvFlag = a.recvFlag)
    (hl : a'.landed = a.landed) : Conn (w.setPeer r q) r a' := by
  have haddr : q.loc.req.remoteDataAddr = (w.peers r).loc.req.remoteDataAddr ∧
      q.loc.req.remoteFlagAddr = (w.peers r).loc.req.remoteFlagAddr ∧
      q.loc.req.flagAddr = (w.peers r).loc.req.flagAddr := by
    rcases hlink with hl | hl
    · exact ⟨hl.remoteDataAddr, hl.remoteFlagAddr, hl.flagAddr⟩
    · rw [hl]
      exact ⟨rfl, rfl, rfl⟩
  refine ⟨hreach, ?_, ⟨fun ht => ?_, fun ht => ?_⟩, hl.trans h.landed⟩
  · simp only [World.setPeer, Function.update_self]
    exact ⟨hrel, haddr.1.trans h.sends.dataAddr, haddr.2.1.trans h.sends.flagAddr,
      haddr.2.2.trans h.sends.ownFlag⟩
  · have hcon := h.receives.connected ht
    exact ⟨hcon.rel.of_recv hs hn hf, hcon.dataAddr, hcon.flagAddr⟩
  · have hsr := h.receives.searching ht
    exact ⟨hs.trans hsr.rest, hn.trans hsr.one, hsr.number, hf.trans hsr.flag, hsr.pending, hsr.unheld,
      hsr.info⟩

end

end CompMatch.Rendezvous
