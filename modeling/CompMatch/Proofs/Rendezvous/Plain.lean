/-
When a receiver matched by plain MPI gets its payload.

The Wait of a search leaves its first loop when a probe finds the payload.  But Start may
have posted the receive for a payload that was there already, and then no probe finds it
any more.  So the first Wait returns only if the payload comes after that probe of Start,
or if the next message lets a probe succeed after all.

`At` is the table of the places the process can be at, `At.step` what one step does to it,
and `rank` what gets smaller on the way to the return.
-/
import CompMatch.Proofs.Rendezvous.World
import CompMatch.Rendezvous.Plain

namespace CompMatch.Rendezvous

namespace Plain

/-! ### Where the process can be -/

/-- The places in the first Start and the first Wait.  A flag is what the last probe or test
has found. -/
inductive Place
  | blank
  | idle
  | startProgress
  | startHandshake          -- in progress_request_waiting_for_rdma
  | startPost
  | startProbe
  | startFallback
  | between
  | probe (flag : Bool)
  | others (flag : Bool) (rest : List Rid)
  | progress (flag : Bool)
  | handshake (flag : Bool)
  | handshakePost (flag : Bool)
  | post
  | decide
  | test
  | testOthers (rest : List Rid)
  | tested
  | done

/-- How far a place is from the return, if the next probe and the next test succeed. -/
def Place.rank : Place → Nat
  | .done => 0
  | .tested => 1
  | .testOthers rest => 2 + rest.length
  | .test => 4
  | .decide => 5
  | .post => 6
  | .probe true => 7
  | .handshakePost true => 8
  | .handshake true => 9
  | .progress true => 10
  | .others true rest => 11 + rest.length
  | .probe false => 13
  | .handshakePost false => 14
  | .handshake false => 15
  | .progress false => 16
  | .others false rest => 17 + rest.length
  | .between => 19
  | .startFallback => 20
  | .startProbe => 21
  | .startPost => 22
  | .startHandshake => 23
  | .startProgress => 24
  | .idle => 25
  | .blank => 26

/-- The process is in `call`, with `nested` called from there, and its first Wait has not
returned. -/
structure Sits (s : Plain) (call : Call) (nested : List Frame) : Prop where
  call : s.proc.call = call
  nested : s.proc.nested = nested
  list : s.proc.requestList = [0]
  nextRid : s.proc.nextRid = 1
  addr : (s.proc.reqs 0).remoteDataAddr = 0
  returned : s.returned = none

/-- No receive was posted, and the first Start has not probed for the payload. -/
structure Unposted (s : Plain) : Prop where
  type : (s.proc.reqs 0).type = .recvSearch
  backup : (s.proc.reqs 0).backupRequest = none
  posted : s.posted = 0
  consumed : s.consumed = 0
  startProbe : s.startProbe = none

/-- In the first operation, after the probe of Start, which has found the payload or not. -/
structure Probed (s : Plain) : Prop where
  active : s.proc.active 0 = true
  number : (s.proc.reqs 0).operationNumber = 1
  consumed : s.consumed = 0
  found : (s.startProbe = some true ∧ (s.proc.reqs 0).backupRequest.isSome = true ∧ s.posted = 1) ∨
    (s.startProbe = some false ∧ (s.proc.reqs 0).backupRequest = none ∧ s.posted = 0)

/-- The payload came after the probe of Start, or the next message has come too. -/
def Late (s : Plain) : Prop := s.startProbe = some false ∨ 2 ≤ s.arrived

/-- The receive is posted, and its message has arrived. -/
structure Posted (s : Plain) : Prop where
  active : s.proc.active 0 = true
  number : (s.proc.reqs 0).operationNumber = 1
  late : s.Late
  posted : s.posted = 1
  arrived : 1 ≤ s.arrived

variable (payload : Nat → List UInt8)

def At (s : Plain) : Place → Prop
  | .blank =>
      s.proc.Blank ∧ s.proc.active 0 = false ∧ s.posted = 0 ∧ s.consumed = 0 ∧
        s.startProbe = none ∧ s.returned = none
  | .idle =>
      s.Sits .none [] ∧ s.Unposted ∧ s.proc.active 0 = false ∧ (s.proc.reqs 0).operationNumber = 0
  | .startProgress =>
      s.Sits (.startRecv 0 .progress) [] ∧ s.Unposted ∧ s.proc.active 0 = true ∧
        (s.proc.reqs 0).operationNumber = 1
  | .startHandshake =>
      s.Sits (.startRecv 0 .probe) [.progressWaiting 0 .probe] ∧ s.Unposted ∧
        s.proc.active 0 = true ∧ (s.proc.reqs 0).operationNumber = 1
  | .startPost =>
      s.Sits (.startRecv 0 .probe) [.progressWaiting 0 .post] ∧ s.Unposted ∧
        s.proc.active 0 = true ∧ (s.proc.reqs 0).operationNumber = 1
  | .startProbe =>
      s.Sits (.startRecv 0 .probe) [] ∧ s.Unposted ∧ s.proc.active 0 = true ∧
        (s.proc.reqs 0).operationNumber = 1
  | .startFallback =>
      s.Sits (.startRecv 0 .fallback) [] ∧ s.proc.active 0 = true ∧
        (s.proc.reqs 0).operationNumber = 1 ∧ (s.proc.reqs 0).type = .recvSearch ∧
        s.posted = 0 ∧ s.consumed = 0 ∧ s.startProbe = some true
  | .between => s.Sits .none [] ∧ s.Probed ∧ (s.proc.reqs 0).type = .recvSearch
  | .probe flag =>
      s.Sits (.waitRecv 0 (.probe flag)) [] ∧ s.Probed ∧ (flag = true → s.posted < s.arrived)
  | .others flag rest =>
      s.Sits (.waitRecv 0 (.progress flag)) [.progressOther 0 rest] ∧ s.Probed ∧
        (flag = true → s.posted < s.arrived) ∧ (rest = [0] ∨ rest = [])
  | .progress flag =>
      s.Sits (.waitRecv 0 (.progress flag)) [] ∧ s.Probed ∧ (flag = true → s.posted < s.arrived)
  | .handshake flag =>
      s.Sits (.waitRecv 0 (.probe flag)) [.progressWaiting 0 .probe] ∧ s.Probed ∧
        (flag = true → s.posted < s.arrived)
  | .handshakePost flag =>
      s.Sits (.waitRecv 0 (.probe flag)) [.progressWaiting 0 .post] ∧ s.Probed ∧
        (flag = true → s.posted < s.arrived)
  | .post => s.Sits (.waitRecv 0 .post) [] ∧ s.Probed ∧ s.posted < s.arrived
  | .decide =>
      s.Sits (.waitRecv 0 .decide) [] ∧ s.Posted ∧ s.consumed = 0 ∧
        (s.proc.reqs 0).backupRequest.isSome = true
  | .test =>
      s.Sits (.waitRecv 0 .test) [] ∧ s.Posted ∧ s.consumed = 0 ∧
        (s.proc.reqs 0).backupRequest.isSome = true ∧ (s.proc.reqs 0).type = .recvFallback
  | .testOthers rest =>
      s.Sits (.waitRecv 0 (.tested true)) [.progressOther 0 rest] ∧ s.Posted ∧ s.consumed = 1 ∧
        s.buf = payload 1 ∧ (s.proc.reqs 0).type = .recvFallback ∧ (rest = [0] ∨ rest = [])
  | .tested =>
      s.Sits (.waitRecv 0 (.tested true)) [] ∧ s.Posted ∧ s.consumed = 1 ∧ s.buf = payload 1 ∧
        (s.proc.reqs 0).type = .recvFallback
  | .done => s.FirstDone payload ∧ s.Late

/-! ### What one step does -/

section
variable {payload} {s s' : Plain} {p : Proc} {c : Option MpiCall} {ans : Answer} {pl : Place}

/-- Where a step of the process leads. -/
structure Moves (payload : Nat → List UInt8) (s s' : Plain) (pl : Place) : Prop where
  place : ∃ pl', s'.At payload pl' ∧
    (pl ≠ .done → s.Late → 1 ≤ s.arrived → pl'.rank < pl.rank)
  arrived : s'.arrived = s.arrived
  startProbe : s'.startProbe = s.startProbe ∨
    (s.startProbe = none ∧ s.posted = 0 ∧ s'.startProbe = some s.probable)

/-- A step that is not the return of the first Wait. -/
theorem Moves.of_proc {t : Plain} (ha : p.active 0 = t.proc.active 0)
    (h : Moves payload s { t with proc := p } pl) : Moves payload s (t.setProc p) pl := by
  unfold setProc
  rw [if_neg]
  · exact h
  · rintro ⟨-, h1, h2⟩
    rw [ha, h1] at h2
    exact Bool.noConfusion h2

theorem Moves.at_some (h : Moves payload s s' pl) : ∃ pl', s'.At payload pl' := by
  obtain ⟨pl', hat, -⟩ := h.place
  exact ⟨pl', hat⟩

theorem step_run (h : s.step payload (.recv (.run ans)) = some s') :
    ∃ p c, s.proc.run ans = some (p, c) ∧ s.permits ans.flag c = true ∧
      s' = (s.effect payload ans.flag c).setProc p := by
  simp only [step, Proc.act] at h
  split at h
  · rename_i p c hrun
    split at h
    · rename_i hp
      exact ⟨p, c, hrun, hp, (Option.some.inj h).symm⟩
    · simp at h
  · simp at h

/-- The probe for a handshake info finds nothing. -/
theorem handshake_probe {flag : Bool} {q : Proc}
    (h : s.permits flag (some (.iprobe 0 (q.commToUse 0))) = true) :
    flag = false ∧ s.effect payload flag (some (.iprobe 0 (q.commToUse 0))) = s := by
  unfold Proc.commToUse at h ⊢
  split at h <;> rename_i ht
  · rw [if_pos ht]
    exact ⟨by simpa [permits] using h, rfl⟩
  · rw [if_neg ht]
    exact ⟨by simpa [permits] using h, rfl⟩

/-- What one step of the first Start does. -/
theorem At.run_start (h : s.At payload pl)
    (hpl : pl = .startProgress ∨ pl = .startHandshake ∨ pl = .startPost ∨ pl = .startProbe ∨
      pl = .startFallback)
    (hs : s.step payload (.recv (.run ans)) = some s') : s.Moves payload s' pl := by
  obtain ⟨p, c, hrun, hperm, rfl⟩ := step_run hs
  rcases hpl with rfl | rfl | rfl | rfl | rfl
  · obtain ⟨hsit, hun, hact, hnum⟩ := h
    simp only [Proc.run, hsit.nested, hsit.call, Proc.runCall] at hrun
    cases hrun
    refine .of_proc (t := s) rfl ?_
    exact ⟨⟨.startHandshake, ⟨⟨rfl, congrArg (Frame.progressWaiting 0 .probe :: ·) hsit.nested,
      hsit.list, hsit.nextRid, hsit.addr, hsit.returned⟩,
      ⟨hun.1, hun.2, hun.3, hun.4, hun.5⟩, hact, hnum⟩, fun _ _ _ => by decide⟩, rfl, Or.inl rfl⟩
  · obtain ⟨hsit, hun, hact, hnum⟩ := h
    have haddr : ((s.proc.setNested []).reqs 0).remoteDataAddr = 0 := hsit.addr
    simp only [Proc.run, hsit.nested, Proc.runFrame, haddr, if_true] at hrun
    obtain ⟨rfl, rfl⟩ := Prod.mk.inj (Option.some.inj hrun)
    obtain ⟨hflag, heff⟩ := handshake_probe hperm
    rw [heff]
    simp only [hflag, Bool.false_eq_true, if_false]
    refine .of_proc rfl ?_
    exact ⟨⟨.startPost, ⟨⟨hsit.call, rfl, hsit.list, hsit.nextRid, hsit.addr, hsit.returned⟩,
      ⟨hun.1, hun.2, hun.3, hun.4, hun.5⟩, hact, hnum⟩, fun _ _ _ => by decide⟩, rfl, Or.inl rfl⟩
  · obtain ⟨hsit, hun, hact, hnum⟩ := h
    have haddr : ((s.proc.setNested []).reqs 0).remoteDataAddr = 0 := hsit.addr
    simp only [Proc.run, hsit.nested, Proc.runFrame, haddr, ne_eq, not_true_eq_false, false_and,
      if_false] at hrun
    cases hrun
    refine .of_proc (t := s) rfl ?_
    exact ⟨⟨.startProbe, ⟨⟨hsit.call, rfl, hsit.list, hsit.nextRid, hsit.addr, hsit.returned⟩,
      ⟨hun.1, hun.2, hun.3, hun.4, hun.5⟩, hact, hnum⟩, fun _ _ _ => by decide⟩, rfl, Or.inl rfl⟩
  · -- the probe for the payload
    obtain ⟨hsit, hun, hact, hnum⟩ := h
    simp only [Proc.run, hsit.nested, hsit.call, Proc.runCall, hsit.addr, if_true] at hrun
    obtain ⟨rfl, rfl⟩ := Prod.mk.inj (Option.some.inj hrun)
    have hflag : ans.flag = s.probable := by simpa [permits] using hperm
    have heff : s.effect payload ans.flag (some (.iprobe 0 .comm)) =
        { s with startProbe := some ans.flag } := by
      simp [effect, hsit.call, hun.startProbe]
    rw [heff]
    by_cases hf : ans.flag = true
    · simp only [hf, if_true]
      refine .of_proc rfl ?_
      exact ⟨⟨.startFallback, ⟨⟨rfl, hsit.nested, hsit.list, hsit.nextRid, hsit.addr, hsit.returned⟩,
        hact, hnum, hun.type, hun.posted, hun.consumed, rfl⟩, fun _ _ _ => by decide⟩, rfl,
        Or.inr ⟨hun.startProbe, hun.posted, by rw [← hflag, hf]⟩⟩
    · simp only [Bool.not_eq_true] at hf
      simp only [hf, Bool.false_eq_true, if_false]
      refine .of_proc rfl ?_
      exact ⟨⟨.between, ⟨⟨rfl, hsit.nested, hsit.list, hsit.nextRid, hsit.addr, hsit.returned⟩,
        ⟨hact, hnum, hun.consumed, Or.inr ⟨rfl, hun.backup, hun.posted⟩⟩, hun.type⟩,
        fun _ _ _ => by decide⟩, rfl, Or.inr ⟨hun.startProbe, hun.posted, by rw [← hflag, hf]⟩⟩
  · obtain ⟨hsit, hact, hnum, htype, hposted, hcons, hprobe⟩ := h
    simp only [Proc.run, hsit.nested, hsit.call, Proc.runCall] at hrun
    cases hrun
    refine .of_proc (t := { s with posted := s.posted + 1 }) rfl ?_
    refine ⟨⟨.between, ⟨⟨rfl, hsit.nested, hsit.list, hsit.nextRid, ?_, hsit.returned⟩,
      ⟨hact, ?_, hcons, Or.inl ⟨hprobe, ?_, ?_⟩⟩, ?_⟩, fun _ _ _ => by decide⟩, rfl, Or.inl rfl⟩
    · simpa [Proc.postBackup, Proc.ret, Proc.setReq, Proc.assert] using hsit.addr
    · simpa [Proc.postBackup, Proc.ret, Proc.setReq, Proc.assert] using hnum
    · simp [Proc.postBackup, Proc.ret, Proc.setReq, Proc.assert]
    · show s.posted + 1 = 1
      rw [hposted]
    · simpa [Proc.postBackup, Proc.ret, Proc.setReq, Proc.assert] using htype

/-- What one step of the search in the first Wait does. -/
theorem At.run_search {flag : Bool} (h : s.At payload pl)
    (hpl : pl = .probe flag ∨ (∃ rest, pl = .others flag rest) ∨ pl = .progress flag ∨
      pl = .handshake flag ∨ pl = .handshakePost flag)
    (hs : s.step payload (.recv (.run ans)) = some s') : s.Moves payload s' pl := by
  obtain ⟨p, c, hrun, hperm, rfl⟩ := step_run hs
  rcases hpl with rfl | ⟨rest, rfl⟩ | rfl | rfl | rfl
  · obtain ⟨hsit, hpr, hf⟩ := h
    cases flag with
    | false =>
        simp only [Proc.run, hsit.nested, hsit.call, Proc.runCall, hsit.addr, and_self, if_true]
          at hrun
        obtain ⟨rfl, rfl⟩ := Prod.mk.inj (Option.some.inj hrun)
        have hflag : ans.flag = s.probable := by simpa [permits] using hperm
        have heff : s.effect payload ans.flag (some (.iprobe 0 .comm)) = s := by
          simp [effect, hsit.call]
        rw [heff]
        refine .of_proc rfl ?_
        have hnested : Frame.progressOther 0 s.proc.requestList :: s.proc.nested =
            [.progressOther 0 [0]] := by
          rw [hsit.list, hsit.nested]
        refine ⟨⟨.others ans.flag [0], ⟨⟨rfl, hnested, hsit.list, hsit.nextRid, hsit.addr,
          hsit.returned⟩, ⟨hpr.1, hpr.2, hpr.3, hpr.4⟩, fun hf => ?_, Or.inl rfl⟩,
          fun _ hlate harr => ?_⟩, rfl, Or.inl rfl⟩
        · simpa [probable] using hflag.symm.trans hf
        · -- the message that makes the probe succeed has arrived
          have hlt : s.posted < s.arrived := by
            rcases hpr.found with ⟨hp, -, hposted⟩ | ⟨-, -, hposted⟩
            · rcases hlate with hl | hl
              · rw [hp] at hl
                simp at hl
              · omega
            · omega
          have htrue : ans.flag = true := by
            rw [hflag]
            simpa [probable] using hlt
          rw [htrue]
          decide
    | true =>
        simp only [Proc.run, hsit.nested, hsit.call, Proc.runCall, hsit.addr, reduceCtorEq,
          and_false, if_false] at hrun
        cases hrun
        refine .of_proc (t := s) rfl ?_
        exact ⟨⟨.post, ⟨⟨rfl, hsit.nested, hsit.list, hsit.nextRid, hsit.addr, hsit.returned⟩,
          ⟨hpr.1, hpr.2, hpr.3, hpr.4⟩, hf rfl⟩, fun _ _ _ => by decide⟩, rfl, Or.inl rfl⟩
  · obtain ⟨hsit, hpr, hf, hrest⟩ := h
    rcases hrest with rfl | rfl
    · simp only [Proc.run, hsit.nested, Proc.runFrame, if_true] at hrun
      cases hrun
      refine .of_proc (t := s) rfl ?_
      exact ⟨⟨.others flag [], ⟨⟨hsit.call, rfl, hsit.list, hsit.nextRid, hsit.addr, hsit.returned⟩,
        ⟨hpr.1, hpr.2, hpr.3, hpr.4⟩, hf, Or.inr rfl⟩, fun _ _ _ => by cases flag <;> decide⟩, rfl,
        Or.inl rfl⟩
    · simp only [Proc.run, hsit.nested, Proc.runFrame] at hrun
      cases hrun
      refine .of_proc (t := s) rfl ?_
      exact ⟨⟨.progress flag, ⟨⟨hsit.call, rfl, hsit.list, hsit.nextRid, hsit.addr, hsit.returned⟩,
        ⟨hpr.1, hpr.2, hpr.3, hpr.4⟩, hf⟩, fun _ _ _ => by cases flag <;> decide⟩, rfl, Or.inl rfl⟩
  · obtain ⟨hsit, hpr, hf⟩ := h
    simp only [Proc.run, hsit.nested, hsit.call, Proc.runCall] at hrun
    cases hrun
    refine .of_proc (t := s) rfl ?_
    exact ⟨⟨.handshake flag, ⟨⟨rfl, congrArg (Frame.progressWaiting 0 .probe :: ·) hsit.nested,
      hsit.list, hsit.nextRid, hsit.addr, hsit.returned⟩, ⟨hpr.1, hpr.2, hpr.3, hpr.4⟩, hf⟩,
      fun _ _ _ => by cases flag <;> decide⟩, rfl, Or.inl rfl⟩
  · obtain ⟨hsit, hpr, hf⟩ := h
    have haddr : ((s.proc.setNested []).reqs 0).remoteDataAddr = 0 := hsit.addr
    simp only [Proc.run, hsit.nested, Proc.runFrame, haddr, if_true] at hrun
    obtain ⟨rfl, rfl⟩ := Prod.mk.inj (Option.some.inj hrun)
    obtain ⟨hflag, heff⟩ := handshake_probe hperm
    rw [heff]
    simp only [hflag, Bool.false_eq_true, if_false]
    refine .of_proc rfl ?_
    exact ⟨⟨.handshakePost flag, ⟨⟨hsit.call, rfl, hsit.list, hsit.nextRid, hsit.addr, hsit.returned⟩,
      ⟨hpr.1, hpr.2, hpr.3, hpr.4⟩, hf⟩, fun _ _ _ => by cases flag <;> decide⟩, rfl, Or.inl rfl⟩
  · obtain ⟨hsit, hpr, hf⟩ := h
    have haddr : ((s.proc.setNested []).reqs 0).remoteDataAddr = 0 := hsit.addr
    simp only [Proc.run, hsit.nested, Proc.runFrame, haddr, ne_eq, not_true_eq_false, false_and,
      if_false] at hrun
    cases hrun
    refine .of_proc (t := s) rfl ?_
    exact ⟨⟨.probe flag, ⟨⟨hsit.call, rfl, hsit.list, hsit.nextRid, hsit.addr, hsit.returned⟩,
      ⟨hpr.1, hpr.2, hpr.3, hpr.4⟩, hf⟩, fun _ _ _ => by cases flag <;> decide⟩, rfl, Or.inl rfl⟩

/-- What one step of the end of the first Wait does. -/
theorem At.run_finish (h : s.At payload pl)
    (hpl : pl = .post ∨ pl = .decide ∨ pl = .test ∨ (∃ rest, pl = .testOthers rest) ∨ pl = .tested)
    (hs : s.step payload (.recv (.run ans)) = some s') : s.Moves payload s' pl := by
  obtain ⟨p, c, hrun, hperm, rfl⟩ := step_run hs
  rcases hpl with rfl | rfl | rfl | ⟨rest, rfl⟩ | rfl
  · obtain ⟨hsit, hpr, hlt⟩ := h
    rcases hpr.found with ⟨hprobe, hback, hposted⟩ | ⟨hprobe, hback, hposted⟩
    · -- Start has posted the receive
      have hnone : (s.proc.reqs 0).backupRequest.isNone = false := by
        simpa [← Option.not_isSome] using hback
      simp only [Proc.run, hsit.nested, hsit.call, Proc.runCall, hnone, Bool.false_eq_true,
        if_false] at hrun
      cases hrun
      refine .of_proc (t := s) rfl ?_
      exact ⟨⟨.decide, ⟨⟨rfl, hsit.nested, hsit.list, hsit.nextRid, hsit.addr, hsit.returned⟩,
        ⟨hpr.1, hpr.2, Or.inr (by rw [hposted] at hlt; exact hlt), hposted,
          Nat.lt_of_le_of_lt (Nat.zero_le _) hlt⟩, hpr.consumed, hback⟩, fun _ _ _ => by decide⟩, rfl,
        Or.inl rfl⟩
    · simp only [Proc.run, hsit.nested, hsit.call, Proc.runCall, hback, Option.isNone_none,
        if_true] at hrun
      cases hrun
      refine .of_proc (t := { s with posted := s.posted + 1 }) rfl ?_
      refine ⟨⟨.decide, ⟨⟨rfl, hsit.nested, hsit.list, hsit.nextRid, ?_, hsit.returned⟩,
        ⟨hpr.1, ?_, Or.inl hprobe, ?_, Nat.lt_of_le_of_lt (Nat.zero_le _) hlt⟩, hpr.consumed, ?_⟩,
        fun _ _ _ => by decide⟩, rfl, Or.inl rfl⟩
      · simpa [Proc.postBackup, Proc.setReq, Proc.setCall] using hsit.addr
      · simpa [Proc.postBackup, Proc.setReq, Proc.setCall] using hpr.number
      · show s.posted + 1 = 1
        rw [hposted]
      · simp [Proc.postBackup, Proc.setReq, Proc.setCall]
  · obtain ⟨hsit, hpo, hcons, hback⟩ := h
    simp only [Proc.run, hsit.nested, hsit.call, Proc.runCall] at hrun
    cases hrun
    refine .of_proc (t := s) rfl ?_
    refine ⟨⟨.test, ⟨⟨rfl, hsit.nested, hsit.list, hsit.nextRid, ?_, hsit.returned⟩,
      ⟨hpo.1, ?_, hpo.3, hpo.4, hpo.5⟩, hcons, ?_, ?_⟩, fun _ _ _ => by decide⟩, rfl, Or.inl rfl⟩
    · simpa [Proc.setReq, Proc.setCall] using hsit.addr
    · simpa [Proc.setReq, Proc.setCall] using hpo.number
    · simpa [Proc.setReq, Proc.setCall] using hback
    · simp [Proc.setReq, Proc.setCall, hsit.addr]
  · -- the message has arrived, so the receive is complete
    obtain ⟨hsit, hpo, hcons, hback, htype⟩ := h
    have hfilled : s.filled = true := by
      simp [filled, hpo.posted, hpo.arrived]
    simp only [Proc.run, hsit.nested, hsit.call, Proc.runCall] at hrun
    obtain ⟨rfl, rfl⟩ := Prod.mk.inj (Option.some.inj hrun)
    have hflag : ans.flag = true := by
      have hp : ans.flag = s.filled := by simpa [permits] using hperm
      rw [hp, hfilled]
    have hdone : s.proc.backupDone ans 0 = true := by
      simp [Proc.backupDone, hflag]
    have heff : s.effect payload ans.flag (some (.testBackup 0)) =
        { s with buf := payload s.posted, consumed := s.consumed + 1 } := by
      simp [effect, complete, hflag, hback]
    have htested : s.proc.testBackup ans 0 =
        s.proc.setReq 0 fun q => { q with backupRequest := none } := by
      simp [Proc.testBackup, hdone]
    rw [heff, hdone, htested]
    refine .of_proc rfl ?_
    have hnested : Frame.progressOther 0 s.proc.requestList :: s.proc.nested =
        [.progressOther 0 [0]] := by
      rw [hsit.list, hsit.nested]
    refine ⟨⟨.testOthers [0], ⟨⟨rfl, hnested, hsit.list, hsit.nextRid, ?_, hsit.returned⟩,
      ⟨hpo.1, ?_, hpo.3, hpo.4, hpo.5⟩, ?_, ?_, ?_, Or.inl rfl⟩, fun _ _ _ => by decide⟩, rfl,
      Or.inl rfl⟩
    · simpa [Proc.setReq, Proc.setCall, Proc.progressOther, Proc.push] using hsit.addr
    · simpa [Proc.setReq, Proc.setCall, Proc.progressOther, Proc.push] using hpo.number
    · show s.consumed + 1 = 1
      rw [hcons]
    · show payload s.posted = payload 1
      rw [hpo.posted]
    · simpa [Proc.setReq, Proc.setCall, Proc.progressOther, Proc.push] using htype
  · obtain ⟨hsit, hpo, hcons, hbuf, htype, hrest⟩ := h
    rcases hrest with rfl | rfl
    · simp only [Proc.run, hsit.nested, Proc.runFrame, if_true] at hrun
      cases hrun
      refine .of_proc (t := s) rfl ?_
      exact ⟨⟨.testOthers [], ⟨⟨hsit.call, rfl, hsit.list, hsit.nextRid, hsit.addr, hsit.returned⟩,
        ⟨hpo.1, hpo.2, hpo.3, hpo.4, hpo.5⟩, hcons, hbuf, htype, Or.inr rfl⟩, fun _ _ _ => by decide⟩,
        rfl, Or.inl rfl⟩
    · simp only [Proc.run, hsit.nested, Proc.runFrame] at hrun
      cases hrun
      refine .of_proc (t := s) rfl ?_
      exact ⟨⟨.tested, ⟨⟨hsit.call, rfl, hsit.list, hsit.nextRid, hsit.addr, hsit.returned⟩,
        ⟨hpo.1, hpo.2, hpo.3, hpo.4, hpo.5⟩, hcons, hbuf, htype⟩, fun _ _ _ => by decide⟩, rfl,
        Or.inl rfl⟩
  · obtain ⟨hsit, hpo, hcons, hbuf, htype⟩ := h
    simp only [Proc.run, hsit.nested, hsit.call, Proc.runCall, if_true] at hrun
    cases hrun
    have hret : ((s.effect payload ans.flag none).setProc (s.proc.finish 0)).returned =
        some ⟨.recvFallback, payload 1, 1⟩ := by
      have h0 : (s.proc.finish 0).active 0 = false := by
        simp [Proc.finish]
      have h1 : ((s.proc.finish 0).reqs 0).type = .recvFallback := htype
      simp only [setProc, effect, hsit.returned, hpo.active, h0, h1, hbuf, hcons, and_self, if_true]
    exact ⟨⟨.done, ⟨hret, hpo.late⟩, fun _ _ _ => by decide⟩, rfl, Or.inl rfl⟩

/-! ### Every step -/

theorem effect_kept (s : Plain) (payload : Nat → List UInt8) (flag : Bool) (c : Option MpiCall) :
    (s.effect payload flag c).returned = s.returned ∧
      (s.effect payload flag c).arrived = s.arrived ∧
      (s.effect payload flag c).startProbe = s.startProbe.or (s.effect payload flag c).startProbe := by
  have hor : ∀ x : Option Bool, x = x.or x := by
    intro x
    cases x <;> rfl
  have hcomplete : (s.complete payload flag).returned = s.returned ∧
      (s.complete payload flag).arrived = s.arrived ∧
      (s.complete payload flag).startProbe = s.startProbe := by
    unfold complete
    split <;> exact ⟨rfl, rfl, rfl⟩
  unfold effect
  split
  · exact ⟨rfl, rfl, hor _⟩
  · exact ⟨hcomplete.1, hcomplete.2.1, by rw [hcomplete.2.2]; exact hor _⟩
  · exact ⟨hcomplete.1, hcomplete.2.1, by rw [hcomplete.2.2]; exact hor _⟩
  · split
    · refine ⟨rfl, rfl, ?_⟩
      cases s.startProbe <;> rfl
    · exact ⟨rfl, rfl, hor _⟩
  · exact ⟨rfl, rfl, hor _⟩

/-- A first Wait that has returned stays so. -/
theorem At.done_step {act : PlainAct} (h : s.At payload .done)
    (hs : s.step payload act = some s') : s'.At payload .done := by
  obtain ⟨hret, hlate⟩ := h
  cases act with
  | arrives =>
      cases hs
      exact ⟨hret, hlate.imp id Nat.le_succ_of_le⟩
  | recv a =>
      simp only [step] at hs
      split at hs
      case h_2 => cases hs
      rename_i p c hact
      split at hs <;> cases hs
      obtain ⟨h1, h2, h3⟩ := effect_kept s payload a.flag c
      refine ⟨?_, ?_⟩
      · unfold FirstDone at hret ⊢
        rw [setProc, if_neg, h1]
        · exact hret
        · rw [h1, hret]
          simp
      · rcases hlate with hl | hl
        · refine Or.inl ?_
          show (s.effect payload a.flag c).startProbe = some false
          rw [h3, hl]
          rfl
        · refine Or.inr ?_
          show 2 ≤ (s.effect payload a.flag c).arrived
          rw [h2]
          exact hl

/-- Until the first Wait returns nothing is recorded. -/
theorem At.returned (h : s.At payload pl) (hpl : pl ≠ .done) : s.returned = none := by
  cases pl with
  | blank => exact h.2.2.2.2.2
  | done => exact absurd rfl hpl
  | _ => exact h.1.returned

/-- The process differs in what no place depends on. -/
structure SamePlace (p p' : Proc) : Prop where
  call : p'.call = p.call
  nested : p'.nested = p.nested
  list : p'.requestList = p.requestList
  nextRid : p'.nextRid = p.nextRid
  active : p'.active = p.active
  addr : (p'.reqs 0).remoteDataAddr = (p.reqs 0).remoteDataAddr
  type : (p'.reqs 0).type = (p.reqs 0).type
  backup : (p'.reqs 0).backupRequest = (p.reqs 0).backupRequest
  number : (p'.reqs 0).operationNumber = (p.reqs 0).operationNumber

/-- Messages that arrive, and what RDMA does, leave the process where it is. -/
theorem At.stay {n : Nat} (h : s.At payload pl) (hp : SamePlace s.proc p) (hn : s.arrived ≤ n) :
    ({ s with proc := p, arrived := n } : Plain).At payload pl := by
  have sits : ∀ {call nested}, s.Sits call nested →
      ({ s with proc := p, arrived := n } : Plain).Sits call nested := by
    intro call nested hs
    exact ⟨hp.call.trans hs.call, hp.nested.trans hs.nested, hp.list.trans hs.list,
      hp.nextRid.trans hs.nextRid, hp.addr.trans hs.addr, hs.returned⟩
  have active : ∀ {b}, s.proc.active 0 = b → p.active 0 = b := by
    intro b hb
    rw [hp.active, hb]
  have unposted : s.Unposted → ({ s with proc := p, arrived := n } : Plain).Unposted := by
    intro hu
    exact ⟨hp.type.trans hu.type, hp.backup.trans hu.backup, hu.posted, hu.consumed, hu.startProbe⟩
  have probed : s.Probed → ({ s with proc := p, arrived := n } : Plain).Probed := by
    intro hu
    refine ⟨active hu.active, hp.number.trans hu.number, hu.consumed, ?_⟩
    simp only [hp.backup]
    exact hu.found
  have late : s.Late → ({ s with proc := p, arrived := n } : Plain).Late := by
    intro hl
    exact hl.imp id fun h2 => Nat.le_trans h2 hn
  have posted : s.Posted → ({ s with proc := p, arrived := n } : Plain).Posted := by
    intro hu
    exact ⟨active hu.active, hp.number.trans hu.number, late hu.late, hu.posted,
      Nat.le_trans hu.arrived hn⟩
  have found : ∀ {flag : Bool}, (flag = true → s.posted < s.arrived) → flag = true → s.posted < n := by
    intro flag hf hflag
    exact Nat.lt_of_lt_of_le (hf hflag) hn
  cases pl with
  | blank =>
      obtain ⟨hb, ha, hrest⟩ := h
      exact ⟨⟨hp.list.trans hb.1, hp.nextRid.trans hb.2, hp.call.trans hb.3, hp.nested.trans hb.4⟩,
        active ha, hrest⟩
  | idle => exact ⟨sits h.1, unposted h.2.1, active h.2.2.1, hp.number.trans h.2.2.2⟩
  | startProgress | startHandshake | startPost | startProbe =>
      exact ⟨sits h.1, unposted h.2.1, active h.2.2.1, hp.number.trans h.2.2.2⟩
  | startFallback =>
      obtain ⟨hs, ha, hnum, ht, hrest⟩ := h
      exact ⟨sits hs, active ha, hp.number.trans hnum, hp.type.trans ht, hrest⟩
  | between => exact ⟨sits h.1, probed h.2.1, hp.type.trans h.2.2⟩
  | probe flag | progress flag | handshake flag | handshakePost flag =>
      exact ⟨sits h.1, probed h.2.1, found h.2.2⟩
  | others flag rest => exact ⟨sits h.1, probed h.2.1, found h.2.2.1, h.2.2.2⟩
  | post => exact ⟨sits h.1, probed h.2.1, Nat.lt_of_lt_of_le h.2.2 hn⟩
  | decide =>
      obtain ⟨hs, hpo, hc, hb⟩ := h
      exact ⟨sits hs, posted hpo, hc, by rw [← hb]; exact congrArg Option.isSome hp.backup⟩
  | test =>
      obtain ⟨hs, hpo, hc, hb, ht⟩ := h
      exact ⟨sits hs, posted hpo, hc, by rw [← hb]; exact congrArg Option.isSome hp.backup,
        hp.type.trans ht⟩
  | testOthers rest =>
      obtain ⟨hs, hpo, hc, hb, ht, hr⟩ := h
      exact ⟨sits hs, posted hpo, hc, hb, hp.type.trans ht, hr⟩
  | tested =>
      obtain ⟨hs, hpo, hc, hb, ht⟩ := h
      exact ⟨sits hs, posted hpo, hc, hb, hp.type.trans ht⟩
  | done => exact ⟨h.1, late h.2⟩

/-- Where the user may call a function. -/
theorem At.free (h : s.At payload pl) (hpl : pl ≠ .done) (hf : s.proc.Free) :
    pl = .blank ∨ pl = .idle ∨ pl = .between := by
  cases pl with
  | blank => exact Or.inl rfl
  | idle => exact Or.inr (Or.inl rfl)
  | between => exact Or.inr (Or.inr rfl)
  | done => exact absurd rfl hpl
  | _ =>
      have hcall := h.1.call.symm.trans hf.1
      simp at hcall

/-- The user calls `Recv_init`, Start or Wait. -/
theorem At.call {a : ProcAct} (h : s.At payload pl) (hpl : pl ≠ .done)
    (ha : (∃ args info, a = .init args info) ∨ a = .start ∨ a = .wait)
    (hs : s.step payload (.recv a) = some s') : s.Moves payload s' pl := by
  simp only [step] at hs
  split at hs
  case h_2 => cases hs
  rename_i p c hact
  split at hs <;> cases hs
  rcases ha with ⟨args, info, rfl⟩ | rfl | rfl
  · simp only [Proc.act] at hact
    split at hact <;> simp only [reduceCtorEq, Option.some.injEq] at hact
    rename_i hf
    have hn : s.proc.nextRid = 0 := hf.2.1
    rcases h.free hpl hf.1 with rfl | rfl | rfl
    · obtain ⟨hb, hactive, hposted, hcons, hprobe, hret⟩ := h
      obtain ⟨rfl, rfl⟩ := Prod.mk.inj hact
      refine .of_proc (t := s) ?_ ?_
      · simp [hn, hactive]
      · refine ⟨⟨.idle, ⟨⟨hb.call, hb.nested, ?_, ?_, ?_, hret⟩, ⟨?_, ?_, hposted, hcons, hprobe⟩,
          ?_, ?_⟩, fun _ _ _ => by decide⟩, rfl, Or.inl rfl⟩
        · simp [hn, hb.requestList]
        · simp [hn]
        · simp [hn]
        · simp [hn]
        · simp [hn]
        · simp [hn]
        · simp [hn]
    · have h1 := h.1.nextRid
      rw [hn] at h1
      exact absurd h1 (by decide)
    · have h1 := h.1.nextRid
      rw [hn] at h1
      exact absurd h1 (by decide)
  · simp only [Proc.act] at hact
    split at hact <;> simp only [reduceCtorEq, Option.some.injEq] at hact
    rename_i hf
    rcases h.free hpl hf.1 with rfl | rfl | rfl
    · have h1 := h.1.nextRid
      rw [hf.2.1] at h1
      exact absurd h1 (by decide)
    · obtain ⟨hsit, hun, hactive, hnum⟩ := h
      simp only [Proc.start, hun.type] at hact
      obtain ⟨rfl, rfl⟩ := Prod.mk.inj hact
      unfold setProc
      rw [if_neg]
      · refine ⟨⟨.startProgress, ⟨⟨rfl, hsit.nested, hsit.list, hsit.nextRid, ?_, hsit.returned⟩,
          ⟨?_, ?_, hun.posted, hun.consumed, hun.startProbe⟩, ?_, ?_⟩, fun _ _ _ => by decide⟩, rfl,
          Or.inl rfl⟩
        · simpa [Proc.setCall, Proc.setReq] using hsit.addr
        · simpa [Proc.setCall, Proc.setReq] using hun.type
        · simpa [Proc.setCall, Proc.setReq] using hun.backup
        · simp [Proc.setCall]
        · simp [Proc.setCall, Proc.setReq, hnum]
      · simp [effect, hactive]
    · have h1 := h.2.1.active
      rw [hf.2.2] at h1
      exact absurd h1 (by decide)
  · simp only [Proc.act] at hact
    split at hact <;> simp only [reduceCtorEq, Option.some.injEq] at hact
    rename_i hf
    rcases h.free hpl hf.1 with rfl | rfl | rfl
    · have h1 := h.1.nextRid
      rw [hf.2.1] at h1
      exact absurd h1 (by decide)
    · have h1 := h.2.2.1
      rw [hf.2.2] at h1
      exact absurd h1 (by decide)
    · obtain ⟨hsit, hpr, htype⟩ := h
      simp only [Proc.wait, htype] at hact
      obtain ⟨rfl, rfl⟩ := Prod.mk.inj hact
      refine .of_proc (t := s) rfl ?_
      exact ⟨⟨.probe false, ⟨⟨rfl, hsit.nested, hsit.list, hsit.nextRid, hsit.addr, hsit.returned⟩,
        ⟨hpr.1, hpr.2, hpr.3, hpr.4⟩, fun hf => Bool.noConfusion hf⟩, fun _ _ _ => by decide⟩, rfl,
        Or.inl rfl⟩

/-- What one step of the process does, wherever it is. -/
theorem At.run (h : s.At payload pl) (hpl : pl ≠ .done)
    (hs : s.step payload (.recv (.run ans)) = some s') : s.Moves payload s' pl := by
  cases pl with
  | startProgress => exact h.run_start (Or.inl rfl) hs
  | startHandshake => exact h.run_start (Or.inr (Or.inl rfl)) hs
  | startPost => exact h.run_start (Or.inr (Or.inr (Or.inl rfl))) hs
  | startProbe => exact h.run_start (Or.inr (Or.inr (Or.inr (Or.inl rfl)))) hs
  | startFallback => exact h.run_start (Or.inr (Or.inr (Or.inr (Or.inr rfl)))) hs
  | probe flag => exact h.run_search (Or.inl rfl) hs
  | others flag rest => exact h.run_search (Or.inr (Or.inl ⟨rest, rfl⟩)) hs
  | progress flag => exact h.run_search (Or.inr (Or.inr (Or.inl rfl))) hs
  | handshake flag => exact h.run_search (Or.inr (Or.inr (Or.inr (Or.inl rfl)))) hs
  | handshakePost flag => exact h.run_search (Or.inr (Or.inr (Or.inr (Or.inr rfl)))) hs
  | post => exact h.run_finish (Or.inl rfl) hs
  | decide => exact h.run_finish (Or.inr (Or.inl rfl)) hs
  | test => exact h.run_finish (Or.inr (Or.inr (Or.inl rfl))) hs
  | testOthers rest => exact h.run_finish (Or.inr (Or.inr (Or.inr (Or.inl ⟨rest, rfl⟩)))) hs
  | tested => exact h.run_finish (Or.inr (Or.inr (Or.inr (Or.inr rfl)))) hs
  | done => exact absurd rfl hpl
  | blank =>
      -- nothing to run before the user calls a function
      obtain ⟨p, c, hrun, -, -⟩ := step_run hs
      simp [Proc.run, h.1.nested, h.1.call, Proc.runCall] at hrun
  | idle | between =>
      obtain ⟨p, c, hrun, -, -⟩ := step_run hs
      simp [Proc.run, h.1.nested, h.1.call, Proc.runCall] at hrun

/-- What the receiver and its user do. -/
theorem At.own {act : PlainAct} (h : s.At payload pl) (hpl : pl ≠ .done) (hact : act.OfRecv)
    (hs : s.step payload act = some s') : s.Moves payload s' pl := by
  cases act with
  | arrives => exact hact.elim
  | recv a =>
      cases a with
      | init args info => exact h.call hpl (Or.inl ⟨args, info, rfl⟩) hs
      | start => exact h.call hpl (Or.inr (Or.inl rfl)) hs
      | wait => exact h.call hpl (Or.inr (Or.inr rfl)) hs
      | run ans => exact h.run hpl hs
      | lands i => exact hact.elim
      | writeFlag v => exact hact.elim

/-- RDMA leaves the process where it is. -/
theorem At.rdma {a : ProcAct} (h : s.At payload pl) (hp : SamePlace s.proc p)
    (hact : s.proc.act .recvSearch a = some (p, none))
    (hs : s.step payload (.recv a) = some s') : s'.At payload pl := by
  simp only [step, hact, permits, if_true] at hs
  cases hs
  have hsame : s.setProc p = { s with proc := p, arrived := s.arrived } := by
    rw [setProc, if_neg]
    rintro ⟨-, h1, h2⟩
    rw [hp.active, h1] at h2
    exact Bool.noConfusion h2
  show (s.setProc p).At payload pl
  rw [hsame]
  exact h.stay hp (Nat.le_refl _)

/-- The table of places is complete. -/
theorem At.step {act : PlainAct} (h : s.At payload pl) (hs : s.step payload act = some s') :
    ∃ pl', s'.At payload pl' := by
  by_cases hpl : pl = .done
  · subst hpl
    exact ⟨.done, h.done_step hs⟩
  · cases act with
    | arrives =>
        cases hs
        exact ⟨pl, h.stay ⟨rfl, rfl, rfl, rfl, rfl, rfl, rfl, rfl, rfl⟩ (Nat.le_succ _)⟩
    | recv a =>
        cases a with
        | init args info => exact (h.call hpl (Or.inl ⟨args, info, rfl⟩) hs).at_some
        | start => exact (h.call hpl (Or.inr (Or.inl rfl)) hs).at_some
        | wait => exact (h.call hpl (Or.inr (Or.inr rfl)) hs).at_some
        | run ans => exact (h.run hpl hs).at_some
        | lands i =>
            cases hx : s.proc.worker.enabled? i with
            | none => simp [Plain.step, Proc.act, hx] at hs
            | some x =>
                have hact : s.proc.act .recvSearch (.lands i) =
                    some ({ s.proc with worker := s.proc.worker.retire i }, none) := by
                  simp [Proc.act, hx]
                exact ⟨pl, h.rdma (p := { s.proc with worker := s.proc.worker.retire i })
                  ⟨rfl, rfl, rfl, rfl, rfl, rfl, rfl, rfl, rfl⟩ hact hs⟩
        | writeFlag v =>
            refine ⟨pl, h.rdma (p := s.proc.setReq 0 fun q => { q with flag := v }) ?_ rfl hs⟩
            constructor <;> simp [Proc.setReq]

theorem reach_at (h : Reach (step payload) anyStep Init s) : ∃ pl, s.At payload pl := by
  refine h.invariant (I := fun s => ∃ pl, s.At payload pl) ?_ ?_
  · intro s hi
    exact ⟨.blank, hi.proc, hi.active, hi.posted, hi.consumed, hi.startProbe, hi.returned⟩
  · intro s s' act hat _ hs
    obtain ⟨pl, hat⟩ := hat
    exact hat.step hs

/-! ### The way to the return -/

/-- Which MPI call is made does not depend on its own answer. -/
theorem run_asks (q : Proc) (f f' : Bool) :
    (q.run ⟨false, f⟩).map Prod.snd = (q.run ⟨false, f'⟩).map Prod.snd := by
  unfold Proc.run
  split
  · rename_i fr below _
    simp only [Option.map_some]
    congr 1
    cases fr with
    | progressOther r rest =>
        cases rest with
        | nil => rfl
        | cons r' rest =>
            simp only [Proc.runFrame, Proc.progressRequest]
            split
            · rfl
            · split <;> rfl
    | progressWaiting r pt =>
        cases pt with
        | probe => simp only [Proc.runFrame]; split <;> rfl
        | post => rfl
    | receiveInfo r pt => cases pt <;> rfl
    | progressRecv r pt => rfl
  · cases q.call with
    | startRecv r pt =>
        cases pt with
        | probe => simp only [Proc.runCall]; split <;> rfl
        | _ => rfl
    | waitRecv r pt =>
        cases pt with
        | probe flag => simp only [Proc.runCall]; split <;> rfl
        | _ => rfl
    | startSend r pt => cases pt <;> rfl
    | waitSend r pt => cases pt <;> rfl
    | mpiWait r => simp only [Proc.runCall]; split <;> split <;> rfl
    | _ => rfl

/-- MPI has an answer for every call. -/
theorem permits_some (s : Plain) (c : Option MpiCall) : ∃ flag, s.permits flag c = true := by
  unfold permits
  split
  · exact ⟨s.probable, by simp⟩
  · exact ⟨false, rfl⟩
  · exact ⟨false, rfl⟩
  · exact ⟨s.filled, by simp⟩
  · exact ⟨s.filled, by simp⟩
  · exact ⟨false, rfl⟩

theorem step_of_act (payload : Nat → List UInt8) {a : ProcAct} (hact : s.proc.act .recvSearch a = some (p, c))
    (hp : s.permits a.flag c = true) : ∃ s', s.step payload (.recv a) = some s' := by
  refine ⟨(s.effect payload a.flag c).setProc p, ?_⟩
  simp only [step, hact, hp, if_true]

/-- A process that is in a function can go on. -/
theorem run_of_not_free {q : Proc} {a : Answer} (hq : ¬ q.Free) : ∃ x, q.run a = some x := by
  unfold Proc.run
  split
  · exact ⟨_, rfl⟩
  · rename_i hnested
    cases hcall : q.call with
    | none => exact absurd ⟨hcall, hnested⟩ hq
    | startSend r pt | startRecv r pt | waitSend r pt =>
        cases pt <;> simp only [Proc.runCall] <;> (try split) <;> exact ⟨_, rfl⟩
    | waitRecv r pt =>
        cases pt <;> simp only [Proc.runCall] <;> (try split) <;> exact ⟨_, rfl⟩
    | mpiWait r =>
        simp only [Proc.runCall]
        split <;> exact ⟨_, rfl⟩
    | _ => exact ⟨_, rfl⟩

theorem run_enabled (payload : Nat → List UInt8) (hs : ¬ s.proc.Free) :
    ∃ ans s', s.step payload (.recv (.run ans)) = some s' := by
  obtain ⟨x, hx⟩ := run_of_not_free (a := ⟨false, false⟩) hs
  obtain ⟨flag, hflag⟩ := permits_some s x.2
  have hasks := run_asks s.proc false flag
  rw [hx] at hasks
  obtain ⟨⟨p, c⟩, hp, hc⟩ := Option.map_eq_some_iff.mp hasks.symm
  rw [← hc] at hflag
  exact ⟨⟨false, flag⟩, step_of_act payload (a := .run ⟨false, flag⟩) hp hflag⟩

/-- The receiver or its user can always go on. -/
theorem At.enabled (h : s.At payload pl) (hpl : pl ≠ .done) :
    ∃ act s', act.OfRecv ∧ s.step payload act = some s' := by
  have user : ∀ {a} {p c}, PlainAct.OfRecv (.recv a) → s.proc.act .recvSearch a = some (p, c) →
      s.permits a.flag c = true → ∃ act s', act.OfRecv ∧ s.step payload act = some s' := by
    intro a p c ha hact hp
    obtain ⟨s', hs⟩ := step_of_act payload hact hp
    exact ⟨.recv a, s', ha, hs⟩
  by_cases hf : s.proc.Free
  · rcases h.free hpl hf with rfl | rfl | rfl
    · exact user (a := .init ⟨1, 0, 0, 0, 1⟩ ⟨1, 1, 0, 0⟩) trivial
        (if_pos ⟨hf, h.1.nextRid, by decide⟩) rfl
    · have hact : s.proc.act .recvSearch .start = some (s.proc.start 0) :=
        if_pos ⟨hf, h.1.nextRid, h.2.2.1⟩
      simp only [Proc.start, h.2.1.type] at hact
      exact user (a := .start) trivial hact rfl
    · exact user (a := .wait) trivial (if_pos ⟨hf, h.1.nextRid, h.2.1.active⟩) rfl
  · obtain ⟨ans, s', hs⟩ := run_enabled payload hf
    exact ⟨.recv (.run ans), s', trivial, hs⟩

/-- Whether the payload came late does not change by what the receiver does. -/
theorem Moves.late_iff (h : s.Moves payload s' pl) (harr : 1 ≤ s.arrived) : s'.Late ↔ s.Late := by
  unfold Late
  rw [h.arrived]
  rcases h.startProbe with hp | ⟨hnone, hposted, hp⟩
  · rw [hp]
  · have hfound : s.probable = true := by
      rw [probable, hposted]
      exact decide_eq_true harr
    simp [hp, hnone, hfound]

/-- A late payload is received. -/
theorem At.canReturn (h : s.At payload pl) (hlate : s.Late) (harr : 1 ≤ s.arrived) :
    s.CanReturn payload := by
  induction hn : pl.rank using Nat.strongRecOn generalizing s pl with
  | _ n ih =>
      by_cases hpl : pl = .done
      · subst hpl
        exact .here h.1
      · obtain ⟨act, s', hact, hs⟩ := h.enabled hpl
        have hm := h.own hpl hact hs
        obtain ⟨pl', hat, hlt⟩ := hm.place
        have hlate' : s'.Late := (hm.late_iff harr).mpr hlate
        have harr' : 1 ≤ s'.arrived := by
          rw [hm.arrived]
          exact harr
        exact .head hact hs (ih _ (hn ▸ hlt hpl hlate harr) hat hlate' harr' rfl)

/-- A payload that Start has posted the receive for is waited for in vain. -/
theorem At.stuck (h : s.At payload pl) (hlate : ¬ s.Late) (harr : 1 ≤ s.arrived) :
    ¬ s.CanReturn payload := by
  intro hc
  have hI : (∃ pl, s.At payload pl) ∧ ¬ s.Late ∧ 1 ≤ s.arrived := ⟨⟨pl, h⟩, hlate, harr⟩
  obtain ⟨t, ⟨⟨pl, hat⟩, hl, -⟩, hgoal⟩ := Leads.invariant
    (I := fun t => (∃ pl, t.At payload pl) ∧ ¬ t.Late ∧ 1 ≤ t.arrived) hI (by
      rintro s s' act ⟨⟨pl, hat⟩, hl, ha⟩ hact hs
      have hpl : pl ≠ .done := by
        rintro rfl
        exact hl hat.2
      have hm := hat.own hpl hact hs
      exact ⟨hm.place.imp fun _ h1 => h1.1, fun h1 => hl ((hm.late_iff ha).mp h1),
        by rw [hm.arrived]; exact ha⟩) hc
  by_cases hpl : pl = .done
  · subst hpl
    exact hl hat.2
  · have hnone := hat.returned hpl
    unfold FirstDone at hgoal
    rw [hnone] at hgoal
    simp at hgoal

/--
**The first Wait returns if and only if the payload is late.**  Once the payload has arrived,
the receiver gets from wherever it is to the return of its first Wait, as a request that has
fallen back, with that payload in its buffer and only that consumed, if the probe of Start did
not find it or the next message has come too, and else never.
-/
theorem canReturn_iff (h : Reach (step payload) anyStep Init s) (harr : 1 ≤ s.arrived) :
    s.CanReturn payload ↔ s.startProbe = some false ∨ 2 ≤ s.arrived := by
  obtain ⟨pl, hat⟩ := reach_at h
  constructor
  · intro hc
    by_contra hlate
    exact hat.stuck hlate harr hc
  · intro hlate
    exact hat.canReturn hlate harr

end

/-! ### Two runs -/

/-- Operation `n` sends the byte `n`. -/
def counted (n : Nat) : List UInt8 := [UInt8.ofNat n]

/-- A process with no requests, and no message. -/
def noRequest : Plain := ⟨freshWorld.proc, 0, 0, 0, [], none, none⟩

theorem noRequest_init : Init noRequest := ⟨⟨rfl, rfl, rfl, rfl⟩, rfl, rfl, rfl, rfl, rfl, rfl⟩

/-- `n` steps in which a probe or a test answers `flag`. -/
def told (n : Nat) (flag : Bool) : List PlainAct := List.replicate n (.recv (.run ⟨false, flag⟩))

/-- `Recv_init`, and Start up to its probe for the payload. -/
def searchRun : List PlainAct :=
  [.recv (.init ⟨16, 1, 0, 0, 4⟩ ⟨24, 12, 0, 0⟩), .recv .start] ++ told 3 false

/-- The payload arrives after the probe of Start. -/
def lateRun : List PlainAct := searchRun ++ told 1 false ++ [.arrives, .recv .wait]

/-- The payload arrives between the two probes of Start. -/
def foundRun : List PlainAct := searchRun ++ [.arrives] ++ told 1 true ++ told 1 false ++ [.recv .wait]

theorem lateRun_canReturn :
    match runFrom (step counted) noRequest lateRun with
    | some s => s.CanReturn counted ∧ s.proc.call = .waitRecv 0 (.probe false)
    | none => False := by
  have hrun : (runFrom (step counted) noRequest lateRun).any (fun s => decide (s.arrived = 1 ∧
      s.startProbe = some false ∧ s.proc.call = .waitRecv 0 (.probe false))) = true := by
    decide +kernel
  cases h : runFrom (step counted) noRequest lateRun with
  | none => simp [h] at hrun
  | some s =>
      simp only [h, Option.any_some, decide_eq_true_eq] at hrun
      obtain ⟨ha, hp, hc⟩ := hrun
      have hreach : Reach (step counted) anyStep Init s := .of_runFrom _ (.init noRequest_init) h
      exact ⟨(canReturn_iff hreach (Nat.le_of_eq ha.symm)).mpr (Or.inl hp), hc⟩

/-- Start has posted the receive for the payload, and the Wait probes for it. -/
theorem foundRun_waits :
    match runFrom (step counted) noRequest foundRun with
    | some s => Reach (step counted) anyStep Init s ∧ s.arrived = 1 ∧ s.posted = 1 ∧
        s.proc.call = .waitRecv 0 (.probe false) ∧ ¬ s.CanReturn counted
    | none => False := by
  have hrun : (runFrom (step counted) noRequest foundRun).any (fun s => decide (s.arrived = 1 ∧
      s.posted = 1 ∧ s.proc.call = .waitRecv 0 (.probe false) ∧ s.startProbe = some true)) = true := by
    decide +kernel
  cases h : runFrom (step counted) noRequest foundRun with
  | none => simp [h] at hrun
  | some s =>
      simp only [h, Option.any_some, decide_eq_true_eq] at hrun
      obtain ⟨ha, hposted, hc, hp⟩ := hrun
      have hreach : Reach (step counted) anyStep Init s := .of_runFrom _ (.init noRequest_init) h
      have hlate : ¬ s.Late := by
        simp [Late, hp, ha]
      obtain ⟨pl, hat⟩ := reach_at hreach
      exact ⟨hreach, ha, hposted, hc, hat.stuck hlate (Nat.le_of_eq ha.symm)⟩

end Plain

end CompMatch.Rendezvous
