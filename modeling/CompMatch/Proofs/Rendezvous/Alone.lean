/-
A Wait whose operation is complete.

What keeps the process from returning is then only what it has called to progress other
requests.  Every such call ends after a bounded number of steps if no handshake message is
found, but for `receive_rdma_info`: that one ends when the counterpart has received the
message of the request.  `Frame.rank` counts the steps of a call, `Call.rank` those of the
function the user called, and in between the process waits only for what it has handed to
UCX itself.
-/
import CompMatch.Proofs.Rendezvous.History
import CompMatch.Proofs.Rendezvous.Movers
import CompMatch.Rendezvous.Alone
import Mathlib.Data.Prod.Lex

namespace CompMatch.Rendezvous

/-! ### How many steps a call takes -/

/-- How far a point of `b_recv` or `progress_recv_request` is from the return. -/
def Point.rank : Point → Nat
  | .test => 12
  | .load => 11
  | .store _ => 10
  | .data => 9
  | .fence => 8
  | .fill | .fillReady => 7
  | .signal | .ready => 6
  | .flush | .flushReady => 5
  | .progress => 4

/-- How many steps a function on the stack takes, if no handshake message is found. -/
def Frame.rank : Frame → Nat
  | .progressOther _ rest => 1 + 16 * rest.length
  | .progressWaiting _ .probe => 2
  | .progressWaiting _ .post => 1
  | .receiveInfo _ .recv => 2
  | .receiveInfo _ .test => 1
  | .progressRecv _ pt => pt.rank

/-- How many steps of its own the function the user called takes, if the operation is complete. -/
def Call.rank : Call → Nat
  | .eSend _ .flagTransfer => 4
  | .eSend _ .dataTransfer => 3
  | .eSend _ (.spin _) => 2
  | .eSend _ .poll => 1
  | .eRecv _ .flagTransfer => 18
  | .eRecv _ .dataTransfer => 17
  | .eRecv _ (.spin _) => 16
  | .eRecv _ .poll => 15
  | .eRecv _ .crosstalk => 14
  | .eRecv _ (.fetch pt) => pt.rank
  | .eRecv _ .fetched => 1
  | .waitSend _ (.tested false) => 5
  | .waitSend _ .progress => 4
  | .waitSend _ .established => 3
  | .waitSend _ .test => 2
  | .waitSend _ (.tested true) => 1
  | .waitRecv _ (.progress _) => 7
  | .waitRecv _ (.probe _) => 6
  | .waitRecv _ .post => 5
  | .waitRecv _ .decide => 4
  | .waitRecv _ (.tested false) => 3
  | .waitRecv _ .test => 2
  | .waitRecv _ (.tested true) => 1
  | _ => 0

section
variable {Op : Type*} {tag : RdmaOp → Op} {toEp : Op → Bool} {imm : Bool} {pt pt' : Point}
  {l l' : Local Op}

theorem rank_fetchStep {checked : Bool}
    (h : fetchStep tag toEp checked imm pt l = (.goto pt', l')) : pt'.rank < pt.rank := by
  cases pt <;> simp only [fetchStep, Prod.mk.injEq, Outcome.goto.injEq, reduceCtorEq, false_and] at h <;>
    obtain ⟨rfl, -⟩ := h <;> simp [Point.rank]

theorem rank_bRecv (h : bRecv tag toEp imm pt l = (.goto pt', l')) : pt'.rank < pt.rank := by
  cases pt with
  | test =>
      simp only [bRecv] at h
      split at h <;> cases h <;> simp [Point.rank]
  | fillReady | ready | flushReady =>
      cases h
      simp [Point.rank]
  | _ =>
      simp only [bRecv] at h
      exact rank_fetchStep h

/-- The steps of a Wait over RDMA, if the flag has its final value: it waits for a flush, or goes on,
or returns. -/
theorem eSend_goes {w : SendWait} (toEp : Op → Bool) (r : Rid) (hle : l.req.operationNumber * 2 + 2 ≤ l.req.flag) :
    l.worker.pending ≠ [] ∨
      (∃ w' l', eSend toEp w l = (.goto w', l') ∧ (Call.eSend r w').rank < (Call.eSend r w).rank ∧
        l'.req.operationNumber * 2 + 2 ≤ l'.req.flag) ∨
      ∃ l', eSend toEp w l = (.ret, l') := by
  have hflush : ∀ handle, flushed toEp l.worker handle ≠ true → l.worker.pending ≠ [] := by
    intro handle hf hnil
    cases handle with
    | none => exact hf rfl
    | some t => exact hf (Worker.clear_of_pending_nil hnil)
  have hnot : ¬ l.req.flag < l.req.operationNumber * 2 + 2 := Int.not_lt.mpr hle
  cases w with
  | flagTransfer =>
      by_cases hf : flushed toEp l.worker l.req.ucxRequestFlagTransfer = true
      · exact Or.inr (Or.inl ⟨_, _, if_pos hf, by simp [Call.rank], hle⟩)
      · exact Or.inl (hflush _ hf)
  | dataTransfer =>
      by_cases hf : flushed toEp l.worker l.req.ucxRequestDataTransfer = true
      · exact Or.inr (Or.inl ⟨_, _, if_pos hf, by simp [Call.rank], hle⟩)
      · exact Or.inl (hflush _ hf)
  | spin count =>
      exact Or.inr (Or.inl ⟨_, _, if_neg fun h => hnot h.1, by simp [Call.rank], hle⟩)
  | poll => exact Or.inr (Or.inr ⟨_, if_neg hnot⟩)

/-- A Wait that fetches does not look at the flag any more. -/
def RecvWait.fetches : RecvWait → Bool
  | .fetch _ | .fetched => true
  | _ => false

theorem eRecv_goes {w : RecvWait} (tag : RdmaOp → Op) (toEp : Op → Bool) (imm : Bool) (r : Rid)
    (hle : w.fetches = false → l.req.operationNumber * 2 + 2 ≤ l.req.flag) :
    l.worker.pending ≠ [] ∨
      (∃ w' l', eRecv tag toEp imm w l = (.goto w', l') ∧
        (Call.eRecv r w').rank < (Call.eRecv r w).rank ∧
          (w'.fetches = false → l'.req.operationNumber * 2 + 2 ≤ l'.req.flag)) ∨
      ∃ l', eRecv tag toEp imm w l = (.ret, l') := by
  have hflush : ∀ handle, flushed toEp l.worker handle ≠ true → l.worker.pending ≠ [] := by
    intro handle hf hnil
    cases handle with
    | none => exact hf rfl
    | some t => exact hf (Worker.clear_of_pending_nil hnil)
  cases w with
  | flagTransfer =>
      by_cases hf : flushed toEp l.worker l.req.ucxRequestFlagTransfer = true
      · exact Or.inr (Or.inl ⟨_, _, if_pos hf, by simp [Call.rank], hle⟩)
      · exact Or.inl (hflush _ hf)
  | dataTransfer =>
      by_cases hf : flushed toEp l.worker l.req.ucxRequestDataTransfer = true
      · exact Or.inr (Or.inl ⟨_, _, if_pos hf, by simp [Call.rank], hle⟩)
      · exact Or.inl (hflush _ hf)
  | spin count =>
      have hle := hle rfl
      exact Or.inr (Or.inl ⟨_, _, if_neg fun h => by omega, by simp [Call.rank], fun _ => hle⟩)
  | poll =>
      have hle := hle rfl
      exact Or.inr (Or.inl ⟨_, _, if_neg (by omega), by simp [Call.rank], fun _ => hle⟩)
  | crosstalk =>
      have hle := hle rfl
      exact Or.inr (Or.inr ⟨_, if_neg (by omega)⟩)
  | fetch pt =>
      rcases hgo : bRecv tag toEp imm pt l with ⟨o, l'⟩
      cases o with
      | goto pt' =>
          refine Or.inr (Or.inl ⟨.fetch pt', l', ?_, rank_bRecv hgo, by simp [RecvWait.fetches]⟩)
          simp only [eRecv, hgo]
      | _ =>
          refine Or.inr (Or.inl ⟨.fetched, l', ?_, ?_, by simp [RecvWait.fetches]⟩)
          · simp only [eRecv, hgo]
          · cases pt <;> simp [Call.rank, Point.rank]
  | fetched =>
      by_cases hf : flushed toEp l.worker l.req.ucxRequestDataTransfer = true
      · exact Or.inr (Or.inr ⟨_, if_pos hf⟩)
      · exact Or.inl (hflush _ hf)

theorem rank_progressRecvRequest (h : progressRecvRequest tag toEp imm pt l = (.goto pt', l')) :
    pt'.rank < pt.rank := by
  cases pt with
  | test =>
      simp only [progressRecvRequest] at h
      split at h <;> cases h <;> simp [Point.rank]
  | _ =>
      simp only [progressRecvRequest] at h
      exact rank_fetchStep h

end

/-- The answer that lets a function on the stack come to its end. -/
def Frame.answer : Frame → Bool
  | .receiveInfo _ .test => true
  | _ => false

namespace Proc

/-- How many steps the functions on the stack take. -/
def rank (p : Proc) : Nat := p.nested.foldr (fun f n => f.rank + n) 0

section
variable {p p' : Proc} {r a : Rid} {ans : Answer} {c : Option MpiCall}

theorem rank_push (f : Frame) : (p.push f).rank = f.rank + p.rank := by
  simp [rank, push]

theorem rank_of_nested (hn : p'.nested = p.nested) : p'.rank = p.rank := by
  rw [rank, rank, hn]

theorem rank_progressRequest : (p.progressRequest ans r).1.rank ≤ 12 + p.rank := by
  unfold progressRequest
  split
  · exact Nat.le_add_left _ _
  · rw [rank_push]
    exact Nat.le_refl _
  · rw [rank_push]
    simp [Frame.rank]
  · rw [rank_push]
    simp [Frame.rank]
  · rw [rank_of_nested (testBackup_frame ans r).2.2.2]
    exact Nat.le_add_left _ _
  · rw [rank_of_nested (testBackup_frame ans r).2.2.2]
    exact Nat.le_add_left _ _

/-- **A function on the stack comes closer to its end.** -/
theorem runFrame_rank {f : Frame} (hans : ans.flag = f.answer) :
    (p.runFrame ans f).1.rank < f.rank + p.rank := by
  cases f with
  | progressOther current rest =>
      cases rest with
      | nil =>
          show p.rank < _
          simp [Frame.rank]
      | cons q rest =>
          simp only [runFrame]
          split
          · rw [rank_push]
            simp [Frame.rank]
          · have h : ((p.push (.progressOther current rest)).progressRequest ans q).1.rank ≤ _ :=
              rank_progressRequest
            rw [rank_push] at h
            simp only [Frame.rank, List.length_cons] at h ⊢
            omega
  | progressWaiting q pt =>
      cases pt with
      | probe =>
          have hflag : ans.flag = false := hans
          simp only [runFrame, hflag, Bool.false_eq_true, if_false]
          split
          · show (p.push (.progressWaiting q .post)).rank < _
            rw [rank_push]
            simp [Frame.rank]
          · rw [rank_push]
            simp [Frame.rank]
      | post =>
          simp only [runFrame]
          split
          · show p.rank < _
            simp [Frame.rank]
          · simp [Frame.rank]
  | receiveInfo q pt =>
      cases pt with
      | recv =>
          simp only [runFrame]
          rw [rank_push]
          show Frame.rank (.receiveInfo q .test) + p.rank < _
          simp [Frame.rank]
      | test =>
          have hdone : p.exchangeDone ans q = true := by
            simp [exchangeDone, hans, Frame.answer]
          simp only [runFrame, hdone, if_true]
          rw [rank_of_nested (testExchange_frame ans q).2.2.2]
          simp [Frame.rank]
  | progressRecv q pt =>
      simp only [runFrame]
      have hpos : 0 < Frame.rank (.progressRecv q pt) := by
        cases pt <;> simp [Frame.rank, Point.rank]
      rcases hgo : progressRecvRequest (Prod.mk q) (p.toEp q) ans.imm pt (p.loc q) with ⟨o, l⟩
      cases o with
      | goto pt' =>
          have h := rank_progressRecvRequest hgo
          show ((p.setLoc q l).push (.progressRecv q pt')).rank < _
          rw [rank_push]
          exact Nat.add_lt_add_right h _
      | _ =>
          show p.rank < _
          omega

/-! ### What is received -/

theorem commToUse_ne_comm : p.commToUse r ≠ .comm := by
  unfold commToUse
  split <;> simp

/-- A function on the stack receives for the requests that it has received for, but for a probe
that finds something. -/
theorem Pushes.receiving {f : Frame} {gs : List Frame} (h : Pushes p f gs)
    (hf : ∀ q, f ≠ .progressWaiting q .probe) : ∀ g ∈ gs, ∀ q, g.receives = some q → f.receives = some q := by
  intro g hg q hq
  cases h with
  | returns => cases hg
  | goes henters hrec =>
      rw [List.mem_singleton.mp hg, hrec] at hq
      exact hq
  | fetches | probes =>
      simp only [List.mem_cons, List.not_mem_nil, or_false] at hg
      rcases hg with rfl | rfl <;> cases hq
  | receives => exact absurd rfl (hf _)
  | repeats =>
      simp only [List.mem_cons, List.not_mem_nil, or_false] at hg
      rcases hg with rfl | rfl
      · cases hq
      · exact hq

/-- `receive_rdma_info` is called for a request only when a probe has found its message. -/
theorem run_receiving (hS : Shape p) (hrun : p.run ans = some (p', c)) (hr : r ∈ p'.receiving) :
    r ∈ p.receiving ∨ (ans.flag = true ∧ ∃ k, k ≠ .comm ∧ c = some (.iprobe r k)) := by
  obtain ⟨g, hg, hrec⟩ := List.mem_filterMap.mp hr
  unfold run at hrun
  split at hrun
  · rename_i f below hn
    have hpair := Option.some.inj hrun
    obtain ⟨gs, hgs, hpush⟩ : ∃ gs, ((p.setNested below).runFrame ans f).1.nested = gs ++ below ∧
        Pushes p f gs := runFrame_pushes
    rw [hpair] at hgs
    change p'.nested = gs ++ below at hgs
    have hold : ∀ {f' : Frame}, f' ∈ p.nested → f'.receives = some r → r ∈ p.receiving :=
      fun hf' hrec' => List.mem_filterMap.mpr ⟨_, hf', hrec'⟩
    rw [hgs, List.mem_append] at hg
    rcases hg with hg | hg
    · by_cases hf : ∃ q, f = .progressWaiting q .probe
      · obtain ⟨q, rfl⟩ := hf
        cases hpush with
        | returns => cases hg
        | goes henters hrec' =>
            rw [List.mem_singleton.mp hg, hrec'] at hrec
            cases hrec
        | receives hnone =>
            simp only [List.mem_cons, List.not_mem_nil, or_false] at hg
            rcases hg with rfl | rfl
            · obtain rfl : q = r := Option.some.inj hrec
              simp only [runFrame] at hpair
              split at hpair
              · by_cases hflag : ans.flag = true
                · cases hpair
                  exact Or.inr ⟨hflag, _, commToUse_ne_comm, rfl⟩
                · -- the probe has found nothing
                  have hlen := congrArg (fun x => x.1.nested.length) hpair
                  simp [hflag, assert, push, setNested, hgs] at hlen
              · have hlen := congrArg (fun x => x.1.nested.length) hpair
                simp [push, setNested, hgs] at hlen
            · cases hrec
      · have hf' := hpush.receiving (fun q hq => hf ⟨q, hq⟩) g hg r hrec
        exact Or.inl (hold (by simp [hn]) hf')
    · exact Or.inl (hold (by simp [hn, hg]) hrec)
  · rename_i hn
    cases runCall_calls hS hn hrun with
    | nothing hn' => simp [hn'] at hg
    | progressOther q hn' =>
        rw [hn', List.mem_singleton] at hg
        rw [hg] at hrec
        cases hrec
    | progressWaiting q hn' =>
        rw [hn', List.mem_singleton] at hg
        rw [hg] at hrec
        cases hrec
/-! ### What a step on the stack does to a request -/

theorem flag_progressRecvRequest {Op : Type*} {tag : RdmaOp → Op} {toEp : Op → Bool} {imm : Bool}
    {l : Local Op} (pt : Point) :
    (progressRecvRequest tag toEp imm pt l).2.req.flag = l.req.flag ∨
      ∃ v, pt = .store v ∧ (progressRecvRequest tag toEp imm pt l).2.req.flag = v + 1 := by
  cases pt with
  | test =>
      simp only [progressRecvRequest]
      split <;> exact Or.inl rfl
  | store v => exact Or.inr ⟨v, rfl, rfl⟩
  | _ => exact Or.inl rfl

/-- Of the functions on the stack only `progress_recv_request` writes a flag. -/
theorem Affects.flag {f : Frame} {q : MpioptRequest} (h : Affects p ans r f q) :
    q.flag = (p.reqs r).flag ∨ ∃ v, f = .progressRecv r (.store v) ∧ q.flag = v + 1 := by
  cases h with
  | fetches =>
      rename_i pt
      rcases flag_progressRecvRequest
        (l := p.loc r) pt with h | ⟨v, rfl, h⟩
      · exact Or.inl h
      · exact Or.inr ⟨v, rfl, h⟩
  | _ => exact Or.inl rfl

/-- Only one posts a receive, with the address it needs. -/
theorem Affects.backup {f : Frame} {q : MpioptRequest} (h : Affects p ans r f q)
    (hq : q.backupRequest.isSome = true) :
    (p.reqs r).backupRequest.isSome = true ∨ (p.reqs r).remoteDataAddr ≠ 0 := by
  cases h with
  | tests => cases hq
  | posts haddr => exact Or.inr haddr
  | fetches =>
      rename_i pt
      exact Or.inl ((moved_progressRecvRequest (l := p.loc r) pt).first.backup ▸ hq)
  | _ => exact Or.inl hq

/-- Only `receive_rdma_info` finds its message received. -/
theorem Affects.exchange {f : Frame} {q : MpioptRequest} (h : Affects p ans r f q) :
    q.rdmaExchangeRequestSend = (p.reqs r).rdmaExchangeRequestSend ∨
      (f = .receiveInfo r .test ∧ p.exchangeDone ans r = true) := by
  cases h with
  | exchanges hdone => exact Or.inr ⟨rfl, hdone⟩
  | fetches =>
      rename_i pt
      have hm : Moved (p.reqs r)
          (progressRecvRequest (Prod.mk r) (p.toEp r) ans.imm pt (p.loc r)).2.req :=
        moved_progressRecvRequest (l := p.loc r) pt
      unfold Moved at hm
      rw [hm]
      exact Or.inl rfl
  | _ => exact Or.inl rfl

/-- `progress_recv_request` has seen that the sender of request `a` is ready. -/
def Seen (p : Proc) (a : Rid) : Prop :=
  match p.prog a with
  | some .load => (p.reqs a).operationNumber * 2 + 1 ≤ (p.reqs a).flag
  | some (.store v) => (p.reqs a).operationNumber * 2 + 1 ≤ v
  | _ => True

theorem seen_of_calm (h : Calm (p.prog a)) : p.Seen a := by
  unfold Seen
  rcases h with h | h | h <;> rw [h] <;> trivial

theorem seen_of_nested (hn : p.nested = []) : p.Seen a :=
  seen_of_calm (Or.inl (by simp [prog, hn]))

/-- Flags that only grow, and nothing else that matters. -/
theorem Seen.congr (h : p.Seen a) (hn : p'.nested = p.nested)
    (hnum : (p'.reqs a).operationNumber = (p.reqs a).operationNumber)
    (hflag : (p.reqs a).flag ≤ (p'.reqs a).flag) : p'.Seen a := by
  have hprog : p'.prog a = p.prog a := by
    simp only [prog, hn]
  unfold Seen at h ⊢
  rw [hprog, hnum]
  split
  · rename_i heq
    rw [heq] at h
    exact Int.le_trans h hflag
  · rename_i heq
    rw [heq] at h
    exact h
  · trivial

theorem prog_mem {pt : Point} (h : p.prog a = some pt) : .progressRecv a pt ∈ p.nested := by
  unfold prog at h
  split at h
  · rename_i q pt' below hn
    split at h
    · rename_i hq
      obtain rfl := Option.some.inj h
      rw [hn, hq]
      exact List.mem_cons_self
    · cases h
  · cases h

theorem seen_run (h : p.Seen a) (hS : Shape p) (hK : Known p) (hrun : p.run ans = some (p', c)) : p'.Seen a := by
  by_cases ht : Tracked p a
  · have hnum := (run_buffer hrun a).number
    cases run_cases hS ht hrun with
    | unmoved hu =>
        rcases hu.prog with hprog | ⟨-, hcalm⟩
        · unfold Seen at h ⊢
          rw [hprog, hnum, hu.alike.flag]
          exact h
        · exact seen_of_calm hcalm
    | runs _ _ hprog' => exact seen_of_calm (Or.inl hprog')
    | informed _ _ _ _ hprog' => exact seen_of_calm (Or.inl hprog')
    | decides _ _ _ _ _ hprog' => exact seen_of_calm (Or.inl hprog')
    | fetches imm pt o hprog hprog' htype hpc hactive hstep hflush =>
        unfold Seen at h ⊢
        rw [hprog] at h
        rw [hprog', hnum]
        have hflag : (p'.view a).req.flag = (progressRecvRequest id oneEp imm pt (p.view a)).2.req.flag := by
          rw [hstep]
        cases pt with
        | test =>
            simp only [progressRecvRequest] at hstep hflag
            split at hstep <;> rename_i hif <;> cases (Prod.mk.inj hstep).1
            · rw [if_pos hif] at hflag
              show _ ≤ (p'.view a).req.flag
              rw [hflag]
              exact Int.le_of_eq hif.symm
            · trivial
        | load =>
            obtain rfl := (Prod.mk.inj hstep).1
            exact h
        | _ =>
            obtain rfl := (Prod.mk.inj hstep).1
            trivial
  · -- `progress_recv_request` is called for connected requests only
    have hS' := (run_control hS hK hrun).1
    refine seen_of_calm (Or.inl ?_)
    cases hprog : p'.prog a with
    | none => rfl
    | some pt =>
        have htype := hS'.fetching a pt (prog_mem hprog)
        exact absurd (run_tracked hS hK hrun (Or.inl htype)) ht

/-! ### What is posted -/

/-- The search of receive request `a` posts the receive only with the address it needs, but for the
Wait that has found the payload. -/
structure Prepared (p : Proc) (a : Rid) : Prop where
  posted : a < p.nextRid → (p.reqs a).type = .recvSearch →
    (p.reqs a).backupRequest.isSome = true →
      (p.reqs a).remoteDataAddr ≠ 0 ∨ p.call = .waitRecv a .decide
  post : (p.reqs a).type = .recvSearch → p.call = .startRecv a .post → (p.reqs a).remoteDataAddr ≠ 0
  fallback : p.call ≠ .startRecv a .fallback
  rests : p.call = .startRecv a .post ∨ p.call = .waitRecv a .decide → p.nested = []

theorem Prepared.frame {f : Frame} {below : List Frame} (h : p.Prepared a) (hS : Shape p)
    (hK : Known p) (hN : p.Nesting False) (hn : p.nested = f :: below)
    (hp : p' = ((p.setNested below).runFrame ans f).1) (hrun : p.run ans = some (p', c)) :
    p'.Prepared a := by
  have hF : Frames p p' below := hp ▸ runFrame_frames hS hK hn
  have hrests : p.call ≠ .startRecv a .post ∧ p.call ≠ .waitRecv a .decide := by
    refine ⟨fun hc => ?_, fun hc => ?_⟩
    · simpa [hn] using h.rests (Or.inl hc)
    · simpa [hn] using h.rests (Or.inr hc)
  have hremote : f ≠ .receiveInfo a .recv → (p'.reqs a).remoteDataAddr = (p.reqs a).remoteDataAddr := by
    intro hf
    rcases run_remote hrun a with hrem | ⟨fs, hfs⟩
    · exact congrArg RdmaInfo.dataAddr hrem
    · rw [hn] at hfs
      exact absurd (List.head_eq_of_cons_eq hfs) hf
  refine ⟨fun hr ht hb => ?_, fun _ hcall => ?_, ?_, fun hcall => ?_⟩
  · rw [hF.type] at ht
    rw [hF.kept.nextRid] at hr
    refine Or.inl ?_
    rw [hp] at hb
    have haddr : (p.reqs a).remoteDataAddr ≠ 0 := by
      rcases (runFrame_affects ans f a).backup hb with hb | haddr
      · exact (h.posted hr ht hb).resolve_right hrests.2
      · exact haddr
    rw [hremote fun hf => haddr (hN.recv a below (hf ▸ hn)).1]
    exact haddr
  · rw [hF.call] at hcall
    exact absurd hcall hrests.1
  · rw [hF.call]
    exact h.fallback
  · rw [hF.call] at hcall
    exact (hcall.elim hrests.1 hrests.2).elim

/-- The function the user called works on another request, or it changes nothing of this one. -/
theorem Prepared.other (h : p.Prepared a) (hnext : p'.nextRid = p.nextRid) (hreq : p'.reqs a = p.reqs a)
    (hpost : p'.call ≠ .startRecv a .post) (hfallback : p'.call ≠ .startRecv a .fallback)
    (hdecide : p.call ≠ .waitRecv a .decide) (hdecide' : p'.call ≠ .waitRecv a .decide) :
    p'.Prepared a := by
  refine ⟨fun hr ht hb => ?_, fun _ hcall => absurd hcall hpost, hfallback, fun hcall => ?_⟩
  · rw [hnext] at hr
    rw [hreq] at ht hb ⊢
    exact Or.inl ((h.posted hr ht hb).resolve_right hdecide)
  · exact (hcall.elim hpost hdecide').elim

/-- The function the user called goes on with the search. -/
theorem Prepared.search (h : p.Prepared a) (hS : Shape p) (hK : Known p) (hn : p.nested = [])
    (ht : (p.reqs a).type = .recvSearch) (hrid : p.call.rid = some a)
    (hfound : c = some (.iprobe a .comm) → p.call = .startRecv a .probe → ans.flag = false)
    (hrun : p.runCall ans p.call = some (p', c)) : p'.Prepared a := by
  have htyped := hS.typed
  have hposted := h.posted (hK.call a hrid) ht
  cases hcall : p.call with
  | startRecv q pt =>
      obtain rfl : q = a := by simpa [hcall, Call.rid] using hrid
      rw [hcall] at hrun hposted
      simp only [reduceCtorEq, or_false] at hposted
      cases pt <;> simp only [runCall] at hrun
      · cases hrun
        refine ⟨fun _ _ hb => Or.inl (hposted hb), ?_, ?_, ?_⟩ <;> simp [setCall, push, assert]
      · split at hrun
        · obtain ⟨rfl, rfl⟩ := Prod.mk.inj (Option.some.inj hrun)
          have hflag := hfound rfl hcall
          simp only [hflag, Bool.false_eq_true, if_false]
          refine ⟨fun _ _ hb => Or.inl (hposted hb), ?_, ?_, ?_⟩ <;> simp [ret]
        · rename_i haddr
          cases hrun
          exact ⟨fun _ _ _ => Or.inl haddr, fun _ _ => haddr, by simp [setCall], fun _ => hn⟩
      · exact absurd hcall h.fallback
      · have haddr := h.post ht hcall
        split at hrun <;> cases hrun
        · refine ⟨fun _ _ _ => Or.inl ?_, ?_, ?_, ?_⟩ <;>
            simp [ret, postBackup, setReq, haddr]
        · refine ⟨fun _ _ hb => Or.inl haddr, ?_, ?_, ?_⟩ <;> simp [ret]
  | waitRecv q pt =>
      obtain rfl : q = a := by simpa [hcall, Call.rid] using hrid
      simp only [Typed, hcall, ht] at htyped
      rw [hcall] at hrun hposted
      cases pt <;> simp only [runCall] at hrun
      · simp only [Call.waitRecv.injEq, reduceCtorEq, and_false, or_false] at hposted
        split at hrun <;> cases hrun
        · refine ⟨fun _ _ hb => Or.inl (hposted hb), ?_, ?_, ?_⟩ <;> simp [setCall, progressOther, push]
        · refine ⟨fun _ _ hb => Or.inl (hposted hb), ?_, ?_, ?_⟩ <;> simp [setCall]
      · simp only [Call.waitRecv.injEq, reduceCtorEq, and_false, or_false] at hposted
        cases hrun
        refine ⟨fun _ _ hb => Or.inl (hposted hb), ?_, ?_, ?_⟩ <;> simp [setCall, push]
      · split at hrun <;> cases hrun
        · refine ⟨fun _ _ _ => Or.inr rfl, ?_, ?_, fun _ => hn⟩ <;> simp [setCall, postBackup, setReq]
        · refine ⟨fun _ _ _ => Or.inr rfl, ?_, ?_, fun _ => hn⟩ <;> simp [setCall]
      · cases hrun
        have htype : ∀ b : Prop, [Decidable b] → (if b then RequestType.recvFallback else .recv) ≠ .recvSearch := by
          intro b _
          split <;> simp
        refine ⟨fun _ ht' => ?_, fun ht' => ?_, ?_, ?_⟩
        · simp only [setCall, setReq, Function.update_self] at ht'
          exact absurd ht' (htype _)
        · simp only [setCall, setReq, Function.update_self] at ht'
          exact absurd ht' (htype _)
        · simp [setCall]
        · simp [setCall]
      · simp [WaitRecvSearch.undecided] at htyped
      · simp [WaitRecvSearch.undecided] at htyped
  | none => simp [hcall, Call.rid] at hrid
  | _ =>
      simp only [Typed, hcall, Call.rid, Option.some.injEq] at htyped hrid
      rw [hrid, ht] at htyped
      simp at htyped

theorem Prepared.call (h : p.Prepared a) (hS : Shape p) (hK : Known p) (hn : p.nested = [])
    (hfound : c = some (.iprobe a .comm) → p.call = .startRecv a .probe → ans.flag = false)
    (hrun : p.runCall ans p.call = some (p', c)) : p'.Prepared a := by
  have hcalled := runCall_called hS hK hn hrun
  by_cases hrid : p.call.rid = some a
  · by_cases ht : (p.reqs a).type = .recvSearch
    · exact h.search hS hK hn ht hrid hfound hrun
    · -- it does not search any more, nor does it begin to
      have ht' : (p'.reqs a).type ≠ .recvSearch := by
        intro ht'
        rcases runCall_decides hS hrun a with heq | ⟨-, ⟨heq, -⟩ | heq⟩ | ⟨-, ⟨heq, -⟩ | heq⟩
        · exact ht (heq ▸ ht')
        all_goals simp [heq] at ht'
      have hstart : ∀ pt, p'.call ≠ .startRecv a pt := by
        intro pt hc
        have htyped := hcalled.typed
        simp only [Typed, hc] at htyped
        exact ht' htyped.2
      have hwait : p'.call ≠ .waitRecv a .decide := by
        intro hc
        have htyped := hcalled.typed
        simp only [Typed, hc, WaitRecvSearch.undecided, if_true] at htyped
        exact ht' htyped.2
      exact ⟨fun _ h _ => absurd h ht', fun h => absurd h ht', hstart _,
        fun hc => (hc.elim (hstart _) hwait).elim⟩
  · have hne : ∀ {f : Call}, f.rid = some a → p'.call ≠ f := by
      rintro f hf rfl
      rcases hcalled.call with hc | hc
      · exact hrid (hc ▸ hf)
      · rw [hc] at hf
        cases hf
    refine h.other hcalled.kept.nextRid (runCall_other hrid hrun).1 (hne rfl) (hne rfl) (fun hc => hrid ?_) (hne rfl)
    rw [hc]
    rfl

theorem prepared_run (h : p.Prepared a) (hS : Shape p) (hK : Known p) (hN : p.Nesting False)
    (hfound : c = some (.iprobe a .comm) → p.call = .startRecv a .probe → ans.flag = false)
    (hrun : p.run ans = some (p', c)) : p'.Prepared a := by
  have hrun' := hrun
  unfold run at hrun
  split at hrun
  · rename_i f below hn
    exact h.frame hS hK hN hn (by rw [Option.some.inj hrun]) hrun'
  · rename_i hn
    exact h.call hS hK hn hfound hrun

/-- Neither the call changes nor what the first operation depends on. -/
theorem Prepared.congr (h : p.Prepared a) (hnext : p'.nextRid = p.nextRid) (hcall : p'.call = p.call) (hn : p'.nested = p.nested)
    (hreq : SameFirst (p.reqs a) (p'.reqs a)) : p'.Prepared a where
  posted := by
    rw [hnext, hreq.type, hreq.backup, hreq.remote, hcall]
    exact h.posted
  post := by
    rw [hreq.type, hreq.remote, hcall]
    exact h.post
  fallback := hcall ▸ h.fallback
  rests := by
    rw [hcall, hn]
    exact h.rests

/-- The user calls a function. -/
theorem Prepared.anew (h : p.Prepared a) (hcall : p.call = .none)
    (hreq : a < p'.nextRid → (p'.reqs a).type = .recvSearch →
      (p'.reqs a).backupRequest.isSome = true →
        a < p.nextRid ∧ (p.reqs a).type = .recvSearch ∧ (p.reqs a).backupRequest.isSome = true ∧
          (p'.reqs a).remoteDataAddr = (p.reqs a).remoteDataAddr)
    (hstart : ∀ pt, p'.call = .startRecv a pt → pt = .progress)
    (hwait : p'.call ≠ .waitRecv a .decide) : p'.Prepared a where
  posted hr ht hb := by
    obtain ⟨hr, ht, hb, haddr⟩ := hreq hr ht hb
    rw [haddr]
    refine Or.inl ((h.posted hr ht hb).resolve_right fun hc => ?_)
    simp [hcall] at hc
  post _ hc := by cases hstart _ hc
  fallback hc := by cases hstart _ hc
  rests hc := by
    rcases hc with hc | hc
    · cases hstart _ hc
    · exact absurd hc hwait

theorem prepared_init (h : p.Prepared a) (hcall : p.call = .none) {type : RequestType}
    (args : InitArgs) (info : RdmaInfo) : (p.initRequest type args info).1.Prepared a := by
  have hcall' : (p.initRequest type args info).1.call = .none := hcall
  refine h.anew hcall (fun hr ht hb => ?_) (fun pt hc => ?_) ?_
  · by_cases ha : a = p.nextRid
    · subst ha
      simp [initRequest] at hb
    · have hreq : (p.initRequest type args info).1.reqs a = p.reqs a := Function.update_of_ne ha ..
      rw [hreq] at ht hb ⊢
      exact ⟨Nat.lt_of_le_of_ne (Nat.le_of_lt_succ hr) ha, ht, hb, rfl⟩
  · simp [hcall'] at hc
  · simp [hcall']

theorem prepared_start (h : p.Prepared a) (hcall : p.call = .none) (r : Rid) :
    (p.start r).1.Prepared a := by
  refine h.anew hcall (fun hr ht hb => ?_) (fun pt hc => ?_) ?_
  · rw [start_type] at ht
    rw [(start_frame r).2.2.1.nextRid] at hr
    by_cases ha : a = r
    · subst ha
      unfold start at hb ⊢
      rw [ht] at hb ⊢
      refine ⟨hr, rfl, ?_, ?_⟩
      · simpa [setCall, setReq] using hb
      · simp [setCall, setReq]
    · rw [(start_frame r).2.2.2.2 a ha] at hb ⊢
      exact ⟨hr, ht, hb, rfl⟩
  · unfold start at hc
    split at hc <;> simp_all [setCall, postBackup, setReq, assert]
  · unfold start
    split <;> simp [setCall, postBackup, setReq, assert, hcall]

theorem prepared_wait (h : p.Prepared a) (hcall : p.call = .none) (r : Rid) : (p.wait r).Prepared a := by
  have hreqs : (p.wait r).reqs = p.reqs := (wait_frame r).2.2.2.1
  refine h.anew hcall (fun hr ht hb => ?_) (fun pt hc => ?_) ?_
  · rw [(wait_frame r).2.2.2.2.nextRid] at hr
    rw [hreqs] at ht hb ⊢
    exact ⟨hr, ht, hb, rfl⟩
  · unfold wait at hc
    split at hc <;> simp [setCall] at hc
  · unfold wait
    split <;> simp [setCall]

end

end Proc

/-- The request that a message is posted for. -/
def MpiCall.postsFor : MpiCall → Option Rid
  | .issend r _ | .isend r | .irecv r => some r
  | _ => none

/-- Of the functions on the stack only one posts a message, for a request without one. -/
theorem Proc.runFrame_postsFor {p : Proc} {ans : Answer} {f : Frame} {c : MpiCall} {r : Rid}
    (h : (p.runFrame ans f).2 = some c) (hc : c.postsFor = some r) :
    (p.reqs r).type = .recvSearch ∧ (p.reqs r).backupRequest = none := by
  cases f with
  | progressOther current rest =>
      cases rest with
      | nil => simp [runFrame] at h
      | cons q rest =>
          simp only [runFrame] at h
          split at h
          · simp at h
          · unfold progressRequest at h
            split at h <;> cases h <;> cases hc
  | progressWaiting q pt =>
      cases pt <;> simp only [runFrame] at h
      · split at h
        · cases h
          cases hc
        · simp at h
      · split at h
        · rename_i hpost
          cases h
          obtain rfl : q = r := Option.some.inj hc
          exact ⟨hpost.2.1, hpost.2.2.1⟩
        · simp at h
  | receiveInfo q pt =>
      cases pt <;> cases h <;> cases hc
  | progressRecv q pt => simp [runFrame] at h

namespace Alone

/-! ### The invariant -/

/-- What holds when Start of request `a` has not hurried. -/
structure Inv (a : Rid) (s : Alone) : Prop where
  history : s.history.Inv False
  worker : s.proc.worker.Ordered
  seen : s.proc.Seen a
  prepared : s.proc.Prepared a

section
variable {s s' : Alone} {h : History} {p : Proc} {a r : Rid} {act : HistoryAct} {ans : Answer}
  {c : Option MpiCall}

theorem inv_init (h0 : Init s) : s.Inv a where
  history := History.inv_init h0.history
  worker := by
    have hw : s.proc.worker = .idle := h0.history.worker
    rw [hw]
    exact ⟨Nat.le_refl _, by simp [Worker.idle]⟩
  seen := Proc.seen_of_nested h0.history.nested
  prepared := by
    have hcall : s.proc.call = .none := h0.history.call
    have hnext : s.proc.nextRid = 0 := h0.history.nextRid
    refine ⟨fun hr => ?_, fun _ hc => ?_, ?_, fun hc => ?_⟩
    · simp [hnext] at hr
    · simp [hcall] at hc
    · simp [hcall]
    · simp [hcall] at hc

/-- Neither the process nor its user does anything. -/
theorem Inv.passive (hi : s.Inv a) (hh : s'.history.Inv False) (hw : s'.proc.worker.Ordered)
    (hnext : s'.proc.nextRid = s.proc.nextRid) (hcall : s'.proc.call = s.proc.call)
    (hn : s'.proc.nested = s.proc.nested) (hreq : SameFirst (s.proc.reqs a) (s'.proc.reqs a))
    (hflag : (s.proc.reqs a).flag ≤ (s'.proc.reqs a).flag) : s'.Inv a :=
  ⟨hh, hw, hi.seen.congr hn hreq.number hflag, hi.prepared.congr hnext hcall hn hreq⟩

theorem Inv.run (hi : s.Inv a) (hh : s'.history.Inv False) (hp : s'.proc = p)
    (hfound : c = some (.iprobe a .comm) → s.proc.call = .startRecv a .probe → ans.flag = false)
    (hrun : s.proc.run ans = some (p, c)) : s'.Inv a := by
  have hS := hi.history.shape
  have hK := hi.history.known
  refine ⟨hh, ?_, ?_, ?_⟩
  · rw [hp]
    rcases Proc.run_moves hrun with hw | ⟨q, -, hw | ⟨op, hw⟩ | hw⟩ <;> rw [hw]
    · exact hi.worker
    · exact hi.worker
    · exact hi.worker.post _
    · exact hi.worker.fence
  · rw [hp]
    exact Proc.seen_run hi.seen hS hK hrun
  · rw [hp]
    exact Proc.prepared_run hi.prepared hS hK hi.history.nesting hfound hrun

/-- **A step of the process or of its surroundings.** -/
theorem inv_history (hi : s.Inv a) (hok : Unhurried a s (.history act))
    (hstep : s.history.step act = some h) (hperm : s.permits act = true) : (s.follow h act).Inv a := by
  have hh : h.Inv False := History.inv_step hi.history False.elim hstep
  have hnew : ∀ {q : Proc}, s.history.Free → q.nested = s.proc.nested → q.worker = s.proc.worker →
      q.Prepared a → h.proc = q → (s.follow h act).Inv a := by
    rintro q hfree hn hw hprep rfl
    refine ⟨hh, ?_, Proc.seen_of_nested (hn.trans hfree.2), hprep⟩
    have hord := hi.worker
    rw [← hw] at hord
    exact hord
  cases act with
  | run ans =>
      simp only [History.step] at hstep
      split at hstep
      · rename_i p c hrun
        split at hstep <;> simp only [reduceCtorEq, Option.some.injEq] at hstep
        have hc : s.call (.run ans) = c := by
          have hrun' : s.proc.run ans = some (p, c) := hrun
          rw [call, hrun']
          rfl
        refine hi.run hh (p := p) (c := c) ?_ (fun hc' => hok (hc.trans hc')) hrun
        rw [← hstep]
        rfl
      · simp at hstep
  | sendInit args =>
      simp only [History.step] at hstep
      split at hstep <;> simp only [reduceCtorEq, Option.some.injEq] at hstep
      rename_i hfree
      exact hnew (q := (s.proc.initRequest .sendSearch args .zero).1) hfree rfl rfl
        (Proc.prepared_init hi.prepared hfree.1 args .zero) (by rw [← hstep]; rfl)
  | recvInit args =>
      simp only [History.step] at hstep
      split at hstep <;> simp only [reduceCtorEq, Option.some.injEq] at hstep
      rename_i hfree
      exact hnew (q := (s.proc.initRequest .recvSearch args .zero).1) hfree rfl rfl
        (Proc.prepared_init hi.prepared hfree.1 args .zero) (by rw [← hstep]; rfl)
  | start r =>
      simp only [History.step] at hstep
      split at hstep <;> simp only [reduceCtorEq, Option.some.injEq] at hstep
      rename_i hfree
      exact hnew hfree.1 (start_frame r).2.1 (start_frame r).1
        (Proc.prepared_start hi.prepared hfree.1.1 r) (by rw [← hstep]; rfl)
  | wait r =>
      simp only [History.step] at hstep
      split at hstep <;> simp only [reduceCtorEq, Option.some.injEq] at hstep
      rename_i hfree
      exact hnew hfree.1 (wait_frame r).2.1 (wait_frame r).1
        (Proc.prepared_wait hi.prepared hfree.1.1 r) (by rw [← hstep]; rfl)
  | free r =>
      simp only [History.step] at hstep
      split at hstep <;> simp only [reduceCtorEq, Option.some.injEq] at hstep
      subst hstep
      exact hi.passive hh hi.worker rfl rfl rfl (.refl _) (Int.le_refl _)
  | announces r info =>
      simp only [History.step, Option.some.injEq] at hstep
      subst hstep
      exact hi.passive hh hi.worker rfl rfl rfl (.refl _) (Int.le_refl _)
  | delivers r =>
      simp only [History.step] at hstep
      split at hstep <;> simp only [reduceCtorEq, Option.some.injEq] at hstep
      subst hstep
      exact hi.passive hh hi.worker rfl rfl rfl (.refl _) (Int.le_refl _)
  | lands i =>
      simp only [History.step] at hstep
      split at hstep <;> simp only [reduceCtorEq, Option.some.injEq] at hstep
      subst hstep
      exact hi.passive hh (hi.worker.retire i) rfl rfl rfl (.refl _) (Int.le_refl _)
  | writeFlag r v =>
      simp only [History.step, Option.some.injEq] at hstep
      subst hstep
      have hle : (s.proc.reqs r).flag ≤ v := of_decide_eq_true hperm
      refine hi.passive hh hi.worker rfl rfl rfl (History.setFlag_first s.proc r v a) ?_
      show _ ≤ ((s.proc.setReq r fun q => { q with flag := v }).reqs a).flag
      by_cases ha : a = r
      · subst ha
        simpa [Proc.setReq] using hle
      · rw [Proc.setReq_other ha]

theorem inv_step {act : AloneAct} (hi : s.Inv a) (hok : Unhurried a s act) (hs : s.step act = some s') :
    s'.Inv a := by
  cases act with
  | history act =>
      simp only [step] at hs
      split at hs
      · rename_i h hstep
        split at hs <;> simp only [reduceCtorEq, Option.some.injEq] at hs
        rename_i hperm
        rw [← hs]
        exact inv_history hi hok hstep hperm
      · simp at hs
  | takes r | receives r =>
      simp only [step] at hs
      split at hs <;> simp only [reduceCtorEq, Option.some.injEq] at hs
      subst hs
      exact hi.passive hi.history hi.worker rfl rfl rfl (.refl _) (Int.le_refl _)

/-! ### Coming closer to the return -/

/-- What is left of the operation of request `a` is the process's own. -/
def Done (s : Alone) (a : Rid) : Prop :=
  match s.proc.call with
  | .eRecv _ (.fetch _) | .eRecv _ .fetched => True
  | .eSend _ _ | .eRecv _ _ => (s.proc.reqs a).operationNumber * 2 + 2 ≤ (s.proc.reqs a).flag
  | _ => s.BackupDone a

theorem Completed.done (h : s.Completed a) : s.Done a := by
  unfold Completed at h
  unfold Done
  split
  · trivial
  · trivial
  · rename_i heq
    rw [heq] at h
    exact h.1
  · rename_i heq
    rw [heq] at h
    exact h.1
  · rename_i h1 h2 h3 h4
    split at h
    · exact absurd (by assumption) (h3 _ _)
    · exact absurd (by assumption) (h4 _ _)
    · exact h

/-- In a Wait on request `a`, whose operation is complete. -/
structure Nears (a : Rid) (s : Alone) : Prop where
  inv : s.Inv a
  waits : s.WaitsFor a
  taken : ∀ r ∈ s.proc.receiving, s.taken r = true
  done : s.Done a

/-- How far it is to the return: calls of the user's function, calls of the functions on the stack,
and what is under way. -/
def rank (s : Alone) : Nat ×ₗ Nat ×ₗ Nat :=
  toLex (s.proc.call.rank, toLex (s.proc.rank, s.proc.worker.pending.length))

/-- The Wait returns, or it comes closer to that. -/
def Advances (a : Rid) (s s' : Alone) : Prop :=
  s'.history.Free ∨ (s'.Nears a ∧ s'.rank < s.rank)

theorem rank_lt_of_call (h : s'.proc.call.rank < s.proc.call.rank) : s'.rank < s.rank :=
  Prod.Lex.toLex_lt_toLex.mpr (Or.inl h)

theorem rank_lt_of_nested (hc : s'.proc.call = s.proc.call) (h : s'.proc.rank < s.proc.rank) :
    s'.rank < s.rank :=
  Prod.Lex.toLex_lt_toLex.mpr (Or.inr ⟨by rw [hc], Prod.Lex.toLex_lt_toLex.mpr (Or.inl h)⟩)

theorem rank_lt_of_pending (hc : s'.proc.call = s.proc.call) (hn : s'.proc.rank = s.proc.rank)
    (h : s'.proc.worker.pending.length < s.proc.worker.pending.length) : s'.rank < s.rank :=
  Prod.Lex.toLex_lt_toLex.mpr
    (Or.inr ⟨by rw [hc], Prod.Lex.toLex_lt_toLex.mpr (Or.inr ⟨hn, h⟩)⟩)

/-- A step of the process that MPI's answers allow. -/
theorem step_run_eq (hrun : s.proc.run ans = some (p, c)) (htrue : s.history.truthful ans = true)
    (hans : s.answers ans.flag c = true) :
    s.step (.history (.run ans)) = some (s.follow ((s.history.call c).setProc p) (.run ans)) := by
  have hrun' : s.history.proc.run ans = some (p, c) := hrun
  have hperm : s.permits (.run ans) = true := by
    simpa only [permits, call, hrun, Option.bind_some] using hans
  simp only [step, History.step, hrun', htrue, hperm, if_true]

theorem BackupDone.follow (hd : s.BackupDone a) (hrun : s.proc.run ans = some (p, c))
    (htype : (p.reqs a).type.isRecv = (s.proc.reqs a).type.isRecv)
    (hno : ∀ x, c = some x → x.postsFor ≠ some a) :
    (s.follow ((s.history.call c).setProc p) (.run ans)).BackupDone a := by
  have hc : s.call (.run ans) = c := by
    rw [call, hrun]
    rfl
  unfold BackupDone at hd ⊢
  show if (p.reqs a).type.isRecv then
    0 < (s.history.call c).posted a ∧ s.history.delivered a = (s.history.call c).posted a else _
  rw [htype]
  split
  · rename_i hrecv
    rw [if_pos hrecv] at hd
    have hposts : posts a c = 0 := if_neg fun h => hno _ h rfl
    rw [History.call_posted, hposts]
    exact hd
  · rename_i hsend
    rw [if_neg hsend] at hd
    unfold Alone.follow
    dsimp only
    rw [hc]
    split
    · rename_i q k
      have hq : a ≠ q := fun h => hno _ rfl (by rw [h]; rfl)
      simp [hq, hd]
    · rename_i q
      have hq : a ≠ q := fun h => hno _ rfl (by rw [h]; rfl)
      simp [hq, hd]
    · exact hd

/-- In a Wait that has its message, nothing more is posted for the first operation. -/
theorem BackupDone.backup (hd : s.BackupDone a) (hi : s.Inv a) (hr : a < s.proc.nextRid)
    (ht : (s.proc.reqs a).type = .recvSearch) : (s.proc.reqs a).backupRequest.isSome = true := by
  have hrecv : (s.proc.reqs a).type.isRecv = true := by
    rw [ht]
    rfl
  unfold BackupDone at hd
  rw [if_pos hrecv] at hd
  have hcount := ((hi.history.backup a hr hrecv).searching ht).count
  by_contra hnone
  change ¬ (s.history.proc.reqs a).backupRequest.isSome = true at hnone
  rw [if_neg hnone] at hcount
  omega

/-- The process goes on in the Wait. -/
theorem Nears.follow (hn : s.Nears a) (hrun : s.proc.run ans = some (p, c))
    (htrue : s.history.truthful ans = true) (hans : s.answers ans.flag c = true)
    (hprobe : ans.flag = true → ∀ r k, c = some (.iprobe r k) → k = .comm)
    (hwaits : p.call.waits = some a)
    (hdone : (s.follow ((s.history.call c).setProc p) (.run ans)).Done a) :
    (s.follow ((s.history.call c).setProc p) (.run ans)).Nears a := by
  have hS := hn.inv.history.shape
  have hok : Unhurried a s (.history (.run ans)) := by
    intro _ hcall
    have hw := hn.waits
    unfold WaitsFor at hw
    rw [hcall] at hw
    cases hw
  refine ⟨inv_step hn.inv hok (step_run_eq hrun htrue hans), hwaits, fun r hr => ?_, hdone⟩
  rcases Proc.run_receiving hS hrun hr with hr | ⟨hflag, k, hk, hc⟩
  · exact hn.taken r hr
  · exact absurd (hprobe hflag r k hc) hk

theorem Nears.known (hn : s.Nears a) : a < s.proc.nextRid := by
  refine hn.inv.history.known.call a ?_
  have hw := hn.waits
  unfold WaitsFor Call.waits at hw
  show s.proc.call.rid = some a
  split at hw <;> simp_all [Call.rid]

/-- What a function on the stack does leaves the operation complete. -/
theorem Nears.done_frame (hn : s.Nears a) {f : Frame} {below : List Frame}
    (hnested : s.proc.nested = f :: below)
    (hrun : s.proc.run ans = some (p, c)) (hp : (s.proc.setNested below).runFrame ans f = (p, c)) :
    (s.follow ((s.history.call c).setProc p) (.run ans)).Done a := by
  have hS := hn.inv.history.shape
  have hK := hn.inv.history.known
  have hF : Proc.Frames s.proc p below := by
    have h : Proc.Frames s.proc ((s.proc.setNested below).runFrame ans f).1 below :=
      Proc.runFrame_frames hS hK hnested
    rwa [hp] at h
  have hnum := (Proc.run_buffer hrun a).number
  have hflag : (s.proc.reqs a).operationNumber * 2 + 2 ≤ (s.proc.reqs a).flag →
      (p.reqs a).operationNumber * 2 + 2 ≤ (p.reqs a).flag := by
    intro hle
    rw [hnum]
    have hcases := (Proc.runFrame_affects (p := s.proc.setNested below) ans f a).flag
    rw [hp] at hcases
    rcases hcases with heq | ⟨v, rfl, heq⟩
    · exact heq ▸ hle
    · have hseen := hn.inv.seen
      unfold Proc.Seen at hseen
      have hprog : s.proc.prog a = some (.store v) := by
        simp [Proc.prog, hnested]
      rw [hprog] at hseen
      change (p.reqs a).flag = v + 1 at heq
      rw [heq]
      change (s.proc.reqs a).operationNumber * 2 + 1 ≤ v at hseen
      omega
  have hbackup : s.BackupDone a → (s.follow ((s.history.call c).setProc p) (.run ans)).BackupDone a := by
    intro hd
    refine hd.follow hrun (by rw [hF.type]) fun x hx hfor => ?_
    have hpost := Proc.runFrame_postsFor (p := s.proc.setNested below) (f := f) (c := x)
      (r := a) (by rw [hp]; exact hx) hfor
    have hsome := hd.backup hn.inv hn.known hpost.1
    have hnone : (s.proc.reqs a).backupRequest = none := hpost.2
    simp [hnone] at hsome
  have hcall : (s.follow ((s.history.call c).setProc p) (.run ans)).proc.call = s.proc.call := hF.call
  have hd := hn.done
  unfold Done at hd ⊢
  rw [hcall]
  cases hc : s.proc.call with
  | eSend q w =>
      simp only [hc] at hd
      exact hflag hd
  | eRecv q w =>
      cases w <;> simp only [hc] at hd ⊢ <;> exact hflag hd
  | _ =>
      simp only [hc] at hd
      exact hbackup hd

/-- A probe or a test may find nothing. -/
theorem answers_false (c : Option MpiCall) : s.answers false c = true := by
  unfold answers
  split <;> rfl

theorem truthful_of_flag (h : ans.flag = false) : s.history.truthful ans = true := by
  unfold History.truthful
  split
  · simp [h]
  · rfl

/-- **The topmost function on the stack goes on.** -/
theorem Nears.advance_frame (hn : s.Nears a) {f : Frame} {below : List Frame}
    (hnested : s.proc.nested = f :: below) :
    ∃ act s', act.OfProc ∧ s.step act = some s' ∧ s.Advances a s' := by
  obtain ⟨⟨p, c⟩, hp⟩ : ∃ x, (s.proc.setNested below).runFrame ⟨false, f.answer⟩ f = x := ⟨_, rfl⟩
  have hrun : s.proc.run ⟨false, f.answer⟩ = some (p, c) := by
    simp only [Proc.run, hnested, hp]
  have hcalls : f.answer = true → ∃ r, f = .receiveInfo r .test ∧ c = some (.testExchange r) := by
    intro hans
    unfold Frame.answer at hans
    split at hans
    · cases hp
      exact ⟨_, rfl, rfl⟩
    · cases hans
  have htrue : s.history.truthful ⟨false, f.answer⟩ = true := by
    by_cases hans : f.answer = true
    · obtain ⟨r, -, rfl⟩ := hcalls hans
      have hrun' : s.history.proc.run ⟨false, f.answer⟩ = some (p, some (.testExchange r)) := hrun
      simp [History.truthful, hrun', MpiCall.tests]
    · exact truthful_of_flag (Bool.of_not_eq_true hans)
  have hanswers : s.answers f.answer c = true := by
    by_cases hans : f.answer = true
    · obtain ⟨r, rfl, rfl⟩ := hcalls hans
      have htaken : s.taken r = true := hn.taken r (by simp [Proc.receiving, hnested, Frame.receives])
      simp [answers, htaken]
    · rw [Bool.of_not_eq_true hans]
      exact answers_false c
  have hF : Proc.Frames s.proc p below := by
    have h : Proc.Frames s.proc ((s.proc.setNested below).runFrame ⟨false, f.answer⟩ f).1 below :=
      Proc.runFrame_frames hn.inv.history.shape hn.inv.history.known hnested
    rwa [hp] at h
  refine ⟨.history (.run ⟨false, f.answer⟩), _, trivial, step_run_eq hrun htrue hanswers,
    Or.inr ⟨?_, rank_lt_of_nested hF.call ?_⟩⟩
  · refine hn.follow hrun htrue hanswers (fun hans r k hc => ?_) ?_ (hn.done_frame hnested hrun hp)
    · obtain ⟨q, -, rfl⟩ := hcalls hans
      cases hc
    · have hw := hn.waits
      unfold WaitsFor at hw
      rw [hF.call]
      exact hw
  · have h : ((s.proc.setNested below).runFrame ⟨false, f.answer⟩ f).1.rank < _ :=
      Proc.runFrame_rank rfl
    rw [hp] at h
    have hrank : s.proc.rank = f.rank + (s.proc.setNested below).rank := by
      simp [Proc.rank, hnested, Proc.setNested]
    rw [hrank]
    exact h

/-- Something that the process has handed to UCX takes effect. -/
theorem Nears.advance_lands (hn : s.Nears a) (hne : s.proc.worker.pending ≠ []) :
    ∃ act s', act.OfProc ∧ s.step act = some s' ∧ s.Advances a s' := by
  obtain ⟨i, x, hx⟩ := hn.inv.worker.exists_enabled hne
  have hget : s.proc.worker.pending[i]? = some x := (Worker.enabled?_eq_some.mp hx).1
  have hx' : s.history.proc.worker.enabled? i = some x := hx
  have hstep : s.step (.history (.lands i)) = some (s.follow (s.history.setProc { s.proc with
      worker := s.proc.worker.retire i }) (.lands i)) := by
    simp only [step, History.step, hx', permits, if_true]
    rfl
  have hok : Unhurried a s (.history (.lands i)) := trivial
  refine ⟨.history (.lands i), _, trivial, hstep, Or.inr ⟨?_, rank_lt_of_pending rfl rfl ?_⟩⟩
  · exact ⟨inv_step hn.inv hok hstep, hn.waits, hn.taken, hn.done⟩
  · have hlt : i < s.proc.worker.pending.length := (List.getElem?_eq_some_iff.mp hget).1
    show (s.proc.worker.pending.eraseIdx i).length < _
    rw [List.length_eraseIdx_of_lt hlt]
    omega

/-- The function the user called makes a step. -/
theorem Nears.advance_run (hn : s.Nears a) (hrun : s.proc.run ans = some (p, c))
    (htrue : s.history.truthful ans = true) (hans : s.answers ans.flag c = true)
    (hprobe : ans.flag = true → ∀ r k, c ≠ some (.iprobe r k))
    (hgoes : (p.call = .none ∧ p.nested = []) ∨
      (p.call.waits = some a ∧ p.call.rank < s.proc.call.rank ∧
        (s.follow ((s.history.call c).setProc p) (.run ans)).Done a)) :
    ∃ act s', act.OfProc ∧ s.step act = some s' ∧ s.Advances a s' := by
  refine ⟨.history (.run ans), _, trivial, step_run_eq hrun htrue hans, ?_⟩
  rcases hgoes with hfree | ⟨hw, hlt, hd⟩
  · exact Or.inl hfree
  · exact Or.inr ⟨hn.follow hrun htrue hans (fun hf r k hc => absurd hc (hprobe hf r k)) hw hd,
      rank_lt_of_call hlt⟩

/-- Over RDMA. -/
theorem Nears.advance_rdma (hn : s.Nears a) (hnested : s.proc.nested = [])
    (hcall : (∃ w, s.proc.call = .eSend a w) ∨ ∃ w, s.proc.call = .eRecv a w) :
    ∃ act s', act.OfProc ∧ s.step act = some s' ∧ s.Advances a s' := by
  have hd := hn.done
  have hfollow : ∀ {p : Proc} {act : HistoryAct} {c : Option MpiCall},
      (s.follow ((s.history.call c).setProc p) act).proc = p := rfl
  rcases hcall with ⟨w, hcall⟩ | ⟨w, hcall⟩
  · simp only [Done, hcall] at hd
    rcases eSend_goes (l := s.proc.loc a) (w := w) (s.proc.toEp a) a hd with
      hne | ⟨w', l', hgo, hlt, hle⟩ | ⟨l', hgo⟩
    · exact hn.advance_lands hne
    · have hrun : s.proc.run ⟨false, false⟩ =
          some ((s.proc.setLoc a l').setCall (.eSend a w'), none) := by
        simp only [Proc.run, hnested, hcall, Proc.runCall, hgo, Proc.resume]
      refine hn.advance_run hrun (truthful_of_flag rfl) rfl (fun hf => by cases hf) (Or.inr ⟨rfl, ?_, ?_⟩)
      · rw [hcall]
        exact hlt
      · show ((s.proc.setLoc a l').reqs a).operationNumber * 2 + 2 ≤ ((s.proc.setLoc a l').reqs a).flag
        simpa [Proc.setLoc] using hle
    · have hrun : s.proc.run ⟨false, false⟩ = some ((s.proc.setLoc a l').finish a, none) := by
        simp only [Proc.run, hnested, hcall, Proc.runCall, hgo, Proc.resume]
      exact hn.advance_run hrun (truthful_of_flag rfl) rfl (fun hf => by cases hf) (Or.inl ⟨rfl, hnested⟩)
  · have hle : w.fetches = false →
        (s.proc.reqs a).operationNumber * 2 + 2 ≤ (s.proc.reqs a).flag := by
      intro hw
      cases w <;> simp only [RecvWait.fetches, reduceCtorEq] at hw <;> simp only [Done, hcall] at hd <;> exact hd
    rcases eRecv_goes (l := s.proc.loc a) (w := w) (Prod.mk a) (s.proc.toEp a) false a hle with
      hne | ⟨w', l', hgo, hlt, hle⟩ | ⟨l', hgo⟩
    · exact hn.advance_lands hne
    · have hrun : s.proc.run ⟨false, false⟩ =
          some ((s.proc.setLoc a l').setCall (.eRecv a w'), none) := by
        simp only [Proc.run, hnested, hcall, Proc.runCall, hgo, Proc.resume]
      refine hn.advance_run hrun (truthful_of_flag rfl) rfl (fun hf => by cases hf) (Or.inr ⟨rfl, ?_, ?_⟩)
      · rw [hcall]
        exact hlt
      · have hle' : w'.fetches = false →
            ((s.proc.setLoc a l').reqs a).operationNumber * 2 + 2 ≤ ((s.proc.setLoc a l').reqs a).flag := by
          intro hw
          simpa [Proc.setLoc] using hle hw
        cases w' <;> first | exact hle' rfl | trivial
    · have hrun : s.proc.run ⟨false, false⟩ = some ((s.proc.setLoc a l').finish a, none) := by
        simp only [Proc.run, hnested, hcall, Proc.runCall, hgo, Proc.resume]
      exact hn.advance_run hrun (truthful_of_flag rfl) rfl (fun hf => by cases hf) (Or.inl ⟨rfl, hnested⟩)

/-- A test of an operation that is complete may find that. -/
theorem BackupDone.answers (hd : s.BackupDone a) {x : MpiCall} (hx : x.tests = some a)
    (hrun : s.proc.run ans = some (p, some x)) :
    s.history.truthful ans = true ∧ s.answers ans.flag (some x) = true := by
  have hrun' : s.history.proc.run ans = some (p, some x) := hrun
  unfold BackupDone at hd
  constructor
  · simp only [History.truthful, hrun', Option.bind_some, hx]
    split at hd
    · rw [hd.2]
      simp
    · rename_i hsend
      simp only [Bool.not_eq_true] at hsend
      change (s.history.proc.reqs a).type.isRecv = false at hsend
      simp [hsend]
  · cases x <;> simp only [MpiCall.tests, Option.some.injEq, reduceCtorEq] at hx
    all_goals
      subst hx
      split at hd
      · rename_i hrecv
        simp [Alone.answers, hrecv]
      · simp [Alone.answers, hd]

/-- A step that makes no MPI call, or tests the operation that is complete. -/
theorem Nears.advance_mpi (hn : s.Nears a) (hd : s.BackupDone a) (hrun : s.proc.run ans = some (p, c))
    (hc : (c = none ∧ ans.flag = false) ∨ ∃ x, c = some x ∧ x.tests = some a)
    (hgoes : (p.call = .none ∧ p.nested = []) ∨
      ∃ call : Call, p.call = call ∧ call.rank < s.proc.call.rank ∧
        ((∃ pt, call = .waitSend a pt) ∨ ∃ pt, call = .waitRecv a pt)) :
    ∃ act s', act.OfProc ∧ s.step act = some s' ∧ s.Advances a s' := by
  have hanswers : s.history.truthful ans = true ∧ s.answers ans.flag c = true := by
    rcases hc with ⟨rfl, hflag⟩ | ⟨x, rfl, hx⟩
    · exact ⟨truthful_of_flag hflag, rfl⟩
    · exact hd.answers hx hrun
  have hprobe : ans.flag = true → ∀ r k, c ≠ some (.iprobe r k) := by
    rintro - r k rfl
    rcases hc with ⟨hc, -⟩ | ⟨x, hc, hx⟩
    · cases hc
    · cases hc
      cases hx
  have hd' : (s.follow ((s.history.call c).setProc p) (.run ans)).BackupDone a := by
    refine hd.follow hrun (Proc.run_isRecv hn.inv.history.shape hn.inv.history.known hrun a) fun x hx hfor => ?_
    rcases hc with ⟨hc, -⟩ | ⟨y, hc, hy⟩
    · simp [hc] at hx
    · obtain rfl := Option.some.inj (hc.symm.trans hx)
      cases y <;> cases hy <;> cases hfor
  refine hn.advance_run hrun hanswers.1 hanswers.2 hprobe (hgoes.imp id ?_)
  rintro ⟨call, rfl, hlt, hcall⟩
  have hcall' : (s.follow ((s.history.call c).setProc p) (.run ans)).proc.call = p.call := rfl
  rcases hcall with ⟨pt, hpt⟩ | ⟨pt, hpt⟩
  · refine ⟨by rw [hpt]; rfl, hlt, ?_⟩
    simp only [Done, hcall', hpt]
    exact hd'
  · refine ⟨by rw [hpt]; rfl, hlt, ?_⟩
    simp only [Done, hcall', hpt]
    exact hd'

theorem Nears.advance_waitSend {pt : WaitSendSearch} (hn : s.Nears a) (hnested : s.proc.nested = [])
    (hcall : s.proc.call = .waitSend a pt) :
    ∃ act s', act.OfProc ∧ s.step act = some s' ∧ s.Advances a s' := by
  have hd : s.BackupDone a := by
    have hd := hn.done
    simpa only [Done, hcall] using hd
  have hrun : ∀ ans, s.proc.run ans = s.proc.runCall ans (.waitSend a pt) := by
    intro ans
    simp only [Proc.run, hnested, hcall]
  cases pt with
  | progress =>
      exact hn.advance_mpi hd (hrun ⟨false, false⟩) (Or.inl ⟨rfl, rfl⟩)
        (Or.inr ⟨.waitSend a .established, rfl, by simp [hcall, Call.rank], Or.inl ⟨_, rfl⟩⟩)
  | established =>
      refine hn.advance_mpi hd (hrun ⟨false, false⟩) (Or.inl ⟨rfl, rfl⟩)
        (Or.inr ⟨.waitSend a .test, ?_, by simp [hcall, Call.rank], Or.inl ⟨_, rfl⟩⟩)
      split <;> rfl
  | test =>
      have hdone : s.proc.backupDone ⟨false, true⟩ a = true := by
        simp [Proc.backupDone]
      refine hn.advance_mpi hd (hrun ⟨false, true⟩) (Or.inr ⟨.testBackup a, rfl, rfl⟩)
        (Or.inr ⟨.waitSend a (.tested true), ?_, by simp [hcall, Call.rank], Or.inl ⟨_, rfl⟩⟩)
      rw [hdone]
      rfl
  | tested flag =>
      cases flag with
      | true =>
          refine hn.advance_mpi hd (hrun ⟨false, false⟩) (Or.inl ⟨rfl, rfl⟩) (Or.inl ⟨rfl, ?_⟩)
          show (if _ then _ else _ : Proc).nested = []
          split <;> exact hnested
      | false =>
          exact hn.advance_mpi hd (hrun ⟨false, false⟩) (Or.inl ⟨rfl, rfl⟩)
            (Or.inr ⟨.waitSend a .progress, rfl, by simp [hcall, Call.rank], Or.inl ⟨_, rfl⟩⟩)

theorem Nears.advance_waitRecv {pt : WaitRecvSearch} (hn : s.Nears a) (hnested : s.proc.nested = [])
    (hcall : s.proc.call = .waitRecv a pt) :
    ∃ act s', act.OfProc ∧ s.step act = some s' ∧ s.Advances a s' := by
  have hd : s.BackupDone a := by
    have hd := hn.done
    simpa only [Done, hcall] using hd
  have hrun : ∀ ans, s.proc.run ans = s.proc.runCall ans (.waitRecv a pt) := by
    intro ans
    simp only [Proc.run, hnested, hcall]
  have hback : pt.undecided = true → (s.proc.reqs a).type = .recvSearch ∧
      (s.proc.reqs a).backupRequest.isSome = true := by
    intro hun
    have htyped := hn.inv.history.shape.typed
    have hcall' : s.history.proc.call = .waitRecv a pt := hcall
    simp only [Proc.Typed, hcall', hun, if_true] at htyped
    exact ⟨htyped.2, hd.backup hn.inv hn.known htyped.2⟩
  cases pt with
  | probe flag =>
      obtain ⟨ht, hsome⟩ := hback rfl
      have haddr : (s.proc.reqs a).remoteDataAddr ≠ 0 := by
        refine (hn.inv.prepared.posted hn.known ht hsome).resolve_right fun hc => ?_
        rw [hcall] at hc
        cases hc
      have hrun' : s.proc.run ⟨false, false⟩ = some (s.proc.setCall (.waitRecv a .post), none) := by
        rw [hrun]
        simp only [Proc.runCall, haddr, false_and, if_false]
      exact hn.advance_mpi hd hrun' (Or.inl ⟨rfl, rfl⟩)
        (Or.inr ⟨.waitRecv a .post, rfl, by simp [hcall, Call.rank], Or.inr ⟨_, rfl⟩⟩)
  | progress flag =>
      exact hn.advance_mpi hd (hrun ⟨false, false⟩) (Or.inl ⟨rfl, rfl⟩)
        (Or.inr ⟨.waitRecv a (.probe flag), rfl, by simp [hcall, Call.rank], Or.inr ⟨_, rfl⟩⟩)
  | post =>
      have hsome := (hback rfl).2
      have hrun' : s.proc.run ⟨false, false⟩ = some (s.proc.setCall (.waitRecv a .decide), none) := by
        rw [hrun]
        have hnone : (s.proc.reqs a).backupRequest.isNone = false := by
          simpa [← Option.not_isSome] using hsome
        simp only [Proc.runCall, hnone, Bool.false_eq_true, if_false]
      exact hn.advance_mpi hd hrun' (Or.inl ⟨rfl, rfl⟩)
        (Or.inr ⟨.waitRecv a .decide, rfl, by simp [hcall, Call.rank], Or.inr ⟨_, rfl⟩⟩)
  | decide =>
      exact hn.advance_mpi hd (hrun ⟨false, false⟩) (Or.inl ⟨rfl, rfl⟩)
        (Or.inr ⟨.waitRecv a .test, rfl, by simp [hcall, Call.rank], Or.inr ⟨_, rfl⟩⟩)
  | test =>
      have hdone : s.proc.backupDone ⟨false, true⟩ a = true := by
        simp [Proc.backupDone]
      refine hn.advance_mpi hd (hrun ⟨false, true⟩) (Or.inr ⟨.testBackup a, rfl, rfl⟩)
        (Or.inr ⟨.waitRecv a (.tested true), ?_, by simp [hcall, Call.rank], Or.inr ⟨_, rfl⟩⟩)
      rw [hdone]
      rfl
  | tested flag =>
      cases flag with
      | true =>
          exact hn.advance_mpi hd (hrun ⟨false, false⟩) (Or.inl ⟨rfl, rfl⟩)
            (Or.inl ⟨rfl, hnested⟩)
      | false =>
          exact hn.advance_mpi hd (hrun ⟨false, false⟩) (Or.inl ⟨rfl, rfl⟩)
            (Or.inr ⟨.waitRecv a .test, rfl, by simp [hcall, Call.rank], Or.inr ⟨_, rfl⟩⟩)

/-- **One step of the process brings the Wait closer to its return.** -/
theorem Nears.advance (hn : s.Nears a) :
    ∃ act s', act.OfProc ∧ s.step act = some s' ∧ s.Advances a s' := by
  cases hnested : s.proc.nested with
  | cons f below => exact hn.advance_frame hnested
  | nil =>
      have hw := hn.waits
      unfold WaitsFor at hw
      cases hcall : s.proc.call with
      | eSend q w =>
          obtain rfl : q = a := by simpa [hcall, Call.waits] using hw
          exact hn.advance_rdma hnested (Or.inl ⟨w, hcall⟩)
      | eRecv q w =>
          obtain rfl : q = a := by simpa [hcall, Call.waits] using hw
          exact hn.advance_rdma hnested (Or.inr ⟨w, hcall⟩)
      | waitSend q pt =>
          obtain rfl : q = a := by simpa [hcall, Call.waits] using hw
          exact hn.advance_waitSend hnested hcall
      | waitRecv q pt =>
          obtain rfl : q = a := by simpa [hcall, Call.waits] using hw
          exact hn.advance_waitRecv hnested hcall
      | mpiWait q =>
          obtain rfl : q = a := by simpa [hcall, Call.waits] using hw
          have hd : s.BackupDone q := by
            have hd := hn.done
            simpa only [Done, hcall] using hd
          have hdone : s.proc.backupDone ⟨false, true⟩ q = true := by
            simp [Proc.backupDone]
          have hrun : s.proc.run ⟨false, true⟩ =
              some ((s.proc.testBackup ⟨false, true⟩ q).finish q, some (.waitBackup q)) := by
            simp only [Proc.run, hnested, hcall, Proc.runCall, hdone, if_true]
          refine hn.advance_mpi hd hrun (Or.inr ⟨.waitBackup q, rfl, rfl⟩) (Or.inl ⟨rfl, ?_⟩)
          exact (Proc.testBackup_frame _ q).2.2.2.trans hnested
      | _ => simp [hcall, Call.waits] at hw

theorem Nears.canReturn (hn : s.Nears a) : s.CanReturn := by
  have hwf : WellFounded fun x y : Nat ×ₗ Nat ×ₗ Nat => x < y := wellFounded_lt
  induction hx : s.rank using hwf.induction generalizing s with
  | _ x ih =>
      obtain ⟨act, s', hown, hstep, hfree | ⟨hn', hlt⟩⟩ := hn.advance
      · exact .head hown hstep (.here hfree)
      · exact .head hown hstep (ih _ (hx ▸ hlt) hn' rfl)

/-! ### What is received for -/

/-- The stack is what it was, unless the process makes a step. -/
theorem nested_of_history (hstep : s.history.step act = some h) (hrun : ∀ ans, act ≠ .run ans) :
    h.proc.nested = s.proc.nested := by
  cases act with
  | run ans => exact absurd rfl (hrun ans)
  | start r =>
      simp only [History.step] at hstep
      split at hstep <;> simp only [reduceCtorEq, Option.some.injEq] at hstep
      subst hstep
      exact (start_frame r).2.1
  | wait r =>
      simp only [History.step] at hstep
      split at hstep <;> simp only [reduceCtorEq, Option.some.injEq] at hstep
      subst hstep
      exact (wait_frame r).2.1
  | announces r info =>
      simp only [History.step, Option.some.injEq] at hstep
      subst hstep
      rfl
  | writeFlag r v =>
      simp only [History.step, Option.some.injEq] at hstep
      subst hstep
      rfl
  | _ =>
      simp only [History.step] at hstep
      split at hstep <;> simp only [reduceCtorEq, Option.some.injEq] at hstep
      subst hstep
      rfl

theorem step_history {act : HistoryAct} (hs : s.step (.history act) = some s') :
    ∃ h, s.history.step act = some h ∧ s.permits act = true ∧ s' = s.follow h act := by
  simp only [step] at hs
  split at hs
  · rename_i h hstep
    split at hs <;> simp only [reduceCtorEq, Option.some.injEq] at hs
    rename_i hperm
    exact ⟨h, hstep, hperm, hs.symm⟩
  · simp at hs

theorem history_run (hstep : s.history.step (.run ans) = some h) :
    ∃ p c, s.proc.run ans = some (p, c) ∧ h.proc = p ∧ s.call (.run ans) = c := by
  simp only [History.step] at hstep
  split at hstep
  · rename_i p c hrun
    split at hstep <;> simp only [reduceCtorEq, Option.some.injEq] at hstep
    have hrun' : s.proc.run ans = some (p, c) := hrun
    refine ⟨p, c, hrun', ?_, by rw [call, hrun']; rfl⟩
    rw [← hstep]
    rfl
  · simp at hstep

/-- Where handshake messages are found only when the request's own was received, every
`receive_rdma_info` comes to its end. -/
theorem taken_step {act : AloneAct} (hS : s.proc.Shape) (ht : ∀ r ∈ s.proc.receiving, s.taken r = true)
    (hok : Answered s act) (hs : s.step act = some s') : ∀ r ∈ s'.proc.receiving, s'.taken r = true := by
  cases act with
  | history act =>
      obtain ⟨h, hstep, -, rfl⟩ := step_history hs
      intro r hr
      by_cases hact : ∃ ans, act = .run ans
      · obtain ⟨ans, rfl⟩ := hact
        obtain ⟨p, c, hrun, hp, hc⟩ := history_run hstep
        have hr' : r ∈ p.receiving := hp ▸ hr
        rcases Proc.run_receiving hS hrun hr' with hold | ⟨hflag, k, hk, hcall⟩
        · exact ht r hold
        · simp only [Answered, hc, hcall] at hok
          cases k with
          | comm => exact absurd rfl hk
          | handshake => exact hok hflag
          | response => exact hok hflag
      · have hn := nested_of_history hstep fun ans h => hact ⟨ans, h⟩
        refine ht r ?_
        rw [Proc.receiving, ← hn]
        exact hr
  | takes q =>
      simp only [step] at hs
      split at hs <;> simp only [reduceCtorEq, Option.some.injEq] at hs
      subst hs
      intro r hr
      show Function.update s.taken q true r = true
      by_cases hrq : r = q
      · subst hrq
        exact Function.update_self ..
      · rw [Function.update_of_ne hrq]
        exact ht r hr
  | receives q =>
      simp only [step] at hs
      split at hs <;> simp only [reduceCtorEq, Option.some.injEq] at hs
      subst hs
      exact ht

/--
**A Wait whose operation is complete can return by the steps of its process alone**, in every
run in which a handshake message is found only when the request's own was received, and no
payload is found by the first Start of the request.
-/
theorem wait_canReturn (h₁ : Reach step (Harmless a) Init s) (hw : s.WaitsFor a)
    (hc : s.Completed a) : s.CanReturn := by
  have hi : s.Inv a ∧ ∀ r ∈ s.proc.receiving, s.taken r = true := by
    refine h₁.invariant (I := fun s => s.Inv a ∧ ∀ r ∈ s.proc.receiving, s.taken r = true)
      (fun t h0 => ⟨inv_init h0, fun r hr => ?_⟩)
      fun t t' act ht hok hs => ⟨inv_step ht.1 hok.1 hs, taken_step ht.1.history.shape ht.2 hok.2 hs⟩
    have hnil : t.proc.nested = [] := h0.history.nested
    simp [Proc.receiving, hnil] at hr
  exact Nears.canReturn ⟨hi.1, hw, hi.2, hc.done⟩

/-! ### Without the counterpart -/

/-- `receive_rdma_info` waits for the counterpart of the request. -/
structure Held (r : Rid) (s : Alone) : Prop where
  nested : .receiveInfo r .test ∈ s.proc.nested
  exchange : (s.proc.reqs r).rdmaExchangeRequestSend.isSome = true
  taken : s.taken r = false

theorem Held.run (hd : s.Held r) (hrun : s.proc.run ans = some (p, c)) (hans : s.answers ans.flag c = true) :
    .receiveInfo r .test ∈ p.nested ∧ (p.reqs r).rdmaExchangeRequestSend.isSome = true := by
  cases hn : s.proc.nested with
  | nil =>
      have hf := hd.nested
      simp [hn] at hf
  | cons f below =>
      have hp : (s.proc.setNested below).runFrame ans f = (p, c) := by
        unfold Proc.run at hrun
        rw [hn] at hrun
        exact Option.some.inj hrun
      have hnot : f = .receiveInfo r .test → (s.proc.setNested below).exchangeDone ans r = false := by
        rintro rfl
        have hc : c = some (.testExchange r) := congrArg Prod.snd hp.symm
        rw [hc] at hans
        simp only [answers, hd.taken, Bool.or_false, Bool.not_eq_true'] at hans
        have hx : ((s.proc.setNested below).reqs r).rdmaExchangeRequestSend.isSome = true := hd.exchange
        simp [Proc.exchangeDone, hans, ← Option.not_isSome, hx]
      constructor
      · by_cases hf : f = .receiveInfo r .test
        · have hdone := hnot hf
          subst hf
          simp only [Proc.runFrame, hdone, Bool.false_eq_true, if_false] at hp
          have hp' := congrArg Prod.fst hp
          dsimp only at hp'
          rw [← hp']
          simp [Proc.progressOther, Proc.push]
        · obtain ⟨gs, hgs, -⟩ : ∃ gs, ((s.proc.setNested below).runFrame ans f).1.nested = gs ++ below ∧
              Proc.Pushes s.proc f gs := Proc.runFrame_pushes
          rw [hp] at hgs
          change p.nested = gs ++ below at hgs
          have hmem := hd.nested
          rw [hn, List.mem_cons] at hmem
          rw [hgs]
          exact List.mem_append_right _ (hmem.resolve_left fun h => hf h.symm)
      · have haff := Proc.runFrame_affects (p := s.proc.setNested below) ans f r
        rw [hp] at haff
        rcases haff.exchange with heq | ⟨hf, hdone⟩
        · change (p.reqs r).rdmaExchangeRequestSend = (s.proc.reqs r).rdmaExchangeRequestSend at heq
          rw [heq]
          exact hd.exchange
        · simp [hnot hf] at hdone

theorem Held.kept {act : AloneAct} (hd : s.Held r) (hact : act ≠ .takes r)
    (hs : s.step act = some s') : s'.Held r := by
  have hne : s.proc.nested ≠ [] := List.ne_nil_of_mem hd.nested
  cases act with
  | history act =>
      obtain ⟨h, hstep, hperm, rfl⟩ := step_history hs
      have hfree : ¬ s.history.Free := fun hfree => hne hfree.2
      cases act with
      | run ans =>
          obtain ⟨p, c, hrun, hp, hc⟩ := history_run hstep
          have hans : s.answers ans.flag c = true := by
            simpa only [permits, hc] using hperm
          obtain ⟨hn, hx⟩ := hd.run hrun hans
          subst hp
          exact ⟨hn, hx, hd.taken⟩
      | announces q info =>
          simp only [History.step, Option.some.injEq] at hstep
          subst hstep
          exact ⟨hd.nested, hd.exchange, hd.taken⟩
      | delivers q =>
          simp only [History.step] at hstep
          split at hstep <;> simp only [reduceCtorEq, Option.some.injEq] at hstep
          subst hstep
          exact ⟨hd.nested, hd.exchange, hd.taken⟩
      | lands i =>
          simp only [History.step] at hstep
          split at hstep <;> simp only [reduceCtorEq, Option.some.injEq] at hstep
          subst hstep
          exact ⟨hd.nested, hd.exchange, hd.taken⟩
      | writeFlag q v =>
          simp only [History.step, Option.some.injEq] at hstep
          subst hstep
          refine ⟨hd.nested, ?_, hd.taken⟩
          show ((s.proc.setReq q fun x => { x with flag := v }).reqs r).rdmaExchangeRequestSend.isSome = true
          by_cases hr : r = q
          · subst hr
            simpa [Proc.setReq] using hd.exchange
          · rw [Proc.setReq_other hr]
            exact hd.exchange
      | _ =>
          simp only [History.step, hfree, false_and, if_false, reduceCtorEq] at hstep
  | takes q =>
      simp only [step] at hs
      split at hs <;> simp only [reduceCtorEq, Option.some.injEq] at hs
      subst hs
      have hq : r ≠ q := fun h => hact (by rw [h])
      exact ⟨hd.nested, hd.exchange, (Function.update_of_ne hq ..).trans hd.taken⟩
  | receives q =>
      simp only [step] at hs
      split at hs <;> simp only [reduceCtorEq, Option.some.injEq] at hs
      subst hs
      exact ⟨hd.nested, hd.exchange, hd.taken⟩

/-- **Whatever anybody does, the call does not return before the counterpart has acted.** -/
theorem Held.stays (hd : s.Held r) : ¬ Leads step (fun act => act ≠ .takes r) (fun t => t.history.Free) s := by
  intro hleads
  obtain ⟨t, ht, hfree⟩ := hleads.invariant hd fun _ _ _ hI hown hs => hI.kept hown hs
  have hmem := ht.nested
  have hnil : t.proc.nested = [] := hfree.2
  simp [hnil] at hmem

theorem Held.not_canReturn (hd : s.Held r) : ¬ s.CanReturn := by
  rintro ⟨acts, t, hown, hrun, hfree⟩
  refine hd.stays ⟨acts, t, fun act hact => ?_, hrun, hfree⟩
  rintro rfl
  exact hown _ hact

end

/-! ### Two runs -/

/-- Nothing was done yet. -/
def fresh : Alone := ⟨History.freshHistory, fun _ => false, fun _ => false, fun _ => false⟩

theorem fresh_init : Init fresh :=
  ⟨History.freshHistory_init, fun _ => rfl, fun _ => rfl, fun _ => rfl⟩

/-- `n` steps in which every probe and test of the process answers `flag`. -/
def runs (n : Nat) (flag : Bool) : List AloneAct := List.replicate n (.history (.run ⟨false, flag⟩))

/-- Two send requests are initialised, and the counterpart of request 1.  Request 0 is started. -/
def twoRequests : List AloneAct :=
  [.history (.sendInit ⟨16, 2, 1, 0, 4⟩), .history (.sendInit ⟨32, 2, 2, 1, 8⟩),
    .history (.announces 1 ⟨48, 40, 0, 0⟩), .history (.start 0)] ++ runs 4 false

/-- The Wait on request 0 finds the message for request 1, and receives it.  Then the payload of
request 0 is received. -/
def progressedWait : List AloneAct :=
  .history (.wait 0) :: runs 6 false ++ runs 1 true ++ runs 1 false ++ [.receives 0]

/-- The counterpart has received the message of request 1 when its own is found. -/
def answeredRun : List AloneAct := twoRequests ++ [.takes 1] ++ progressedWait

/-- It has not. -/
def unansweredRun : List AloneAct := twoRequests ++ progressedWait

/-- The condition on the steps, as a test. -/
def harmless (a : Rid) (s : Alone) : AloneAct → Bool
  | .history (.run ans) =>
      match s.call (.run ans) with
      | some (.iprobe r .comm) => r != a || s.proc.call != .startRecv a .probe || !ans.flag
      | some (.iprobe r _) => !ans.flag || s.taken r
      | _ => true
  | _ => true

theorem harmless_sound {a : Rid} (s : Alone) (act : AloneAct) (ht : harmless a s act = true) :
    Harmless a s act := by
  cases act with
  | history act =>
      cases act with
      | run ans =>
          simp only [harmless] at ht
          refine ⟨fun hc hcall => ?_, ?_⟩
          · simp only [hc, hcall, bne_self_eq_false, Bool.false_or, Bool.not_eq_true'] at ht
            exact ht
          · simp only [Answered]
            split
            · rename_i r hc
              simp only [hc, Bool.or_eq_true, Bool.not_eq_true'] at ht
              intro hflag
              exact ht.resolve_left (by simp [hflag])
            · rename_i r hc
              simp only [hc, Bool.or_eq_true, Bool.not_eq_true'] at ht
              intro hflag
              exact ht.resolve_left (by simp [hflag])
            · trivial
      | _ => exact ⟨trivial, trivial⟩
  | _ => exact ⟨trivial, trivial⟩

/-- The Wait on request 0 returns in the first run. -/
theorem answeredRun_canReturn :
    match runFrom (guarded (harmless 0) step) fresh answeredRun with
    | some s => s.CanReturn ∧ s.proc.receiving = [1]
    | none => False := by
  have hrun : (runFrom (guarded (harmless 0) step) fresh answeredRun).any
      (fun s => decide (s.proc.call = .waitSend 0 (.tested false) ∧ s.BackupDone 0 ∧
        s.proc.receiving = [1])) = true := by
    decide +kernel
  cases heq : runFrom (guarded (harmless 0) step) fresh answeredRun with
  | none => simp [heq] at hrun
  | some s =>
      simp only [heq, Option.any_some, decide_eq_true_eq] at hrun
      obtain ⟨hcall, hdone, hrec⟩ := hrun
      refine ⟨wait_canReturn (a := 0) (.of_guarded harmless_sound _ (.init fresh_init) heq) ?_ ?_, hrec⟩
      · rw [WaitsFor, hcall]
        rfl
      · simpa only [Completed, hcall] using hdone

/-- The process waits in the Wait on request 0 for the counterpart of request 1. -/
theorem unansweredRun_held : ¬ ∀ (s : Alone) (a : Rid), Reach step anyStep Init s →
    s.WaitsFor a → s.Completed a → s.CanReturn := by
  intro h
  have hrun : (runFrom step fresh unansweredRun).any (fun s => decide
      (s.proc.call = .waitSend 0 (.tested false) ∧ s.BackupDone 0 ∧
        .receiveInfo 1 .test ∈ s.proc.nested ∧
          (s.proc.reqs 1).rdmaExchangeRequestSend.isSome = true ∧ s.taken 1 = false)) = true := by
    decide +kernel
  cases heq : runFrom step fresh unansweredRun with
  | none => simp [heq] at hrun
  | some s =>
      simp only [heq, Option.any_some, decide_eq_true_eq] at hrun
      obtain ⟨hcall, hdone, hheld⟩ := hrun
      refine Held.not_canReturn ⟨hheld.1, hheld.2.1, hheld.2.2⟩
        (h s 0 (.of_runFrom _ (.init fresh_init) heq) ?_ ?_)
      · rw [WaitsFor, hcall]
        rfl
      · simpa only [Completed, hcall] using hdone

end Alone

end CompMatch.Rendezvous
