/-
No library gets a handle of the other one.

Which calls are rewritten is read off the users of the requests: a call to one of the five
functions is rewritten exactly if its request is that of a call that is replaced.  A build with
assertions has looked at all other users, and there are none that could read the handle.

So a variable that holds a handle of the runtime is one whose operand is replaced, and every
call that gets such an operand is to the runtime.  That is kept by every step.
-/
import CompMatch.Pass.Handles
import CompMatch.Proofs.Pass.RunOnModule

namespace CompMatch.Pass

namespace Module

/-! ### Which function is called -/

section
variable {m : Module} {f g : FuncId} {k j : MpiFunction} {lib : Library} {op : Op}

theorem findSome_only {α β : Type*} [DecidableEq α] {a : α} {x : β} {l : List α} (ha : a ∈ l) :
    l.findSome? (fun i => if i = a then some x else none) = some x := by
  induction l with
  | nil => cases ha
  | cons i rest ih =>
      rw [List.findSome?_cons]
      by_cases hi : i = a
      · rw [if_pos hi]
      · rw [if_neg hi]
        exact ih ((List.mem_cons.mp ha).resolve_left (Ne.symm hi))

theorem optimizedFunctions_inj {name : String} (h : optimizedFunctions.lookup k = some name)
    (h' : optimizedFunctions.lookup j = some name) : k = j := by
  have hall : ∀ x ∈ optimizedFunctions, ∀ i, optimizedFunctions.lookup i = some x.2 → x.1 = i := by
    intro x hx i
    cases i <;> revert x <;> decide
  obtain ⟨l₁, l₂, hl, -⟩ := List.lookup_eq_some_iff.mp h
  have hmem : (k, name) ∈ optimizedFunctions := by simp [hl]
  exact hall _ hmem j h'

theorem optimized_inj (h : m.optimized k = some f) (h' : m.optimized j = some f) : k = j := by
  obtain ⟨name, hk, hf⟩ := optimized_eq h
  obtain ⟨name', hj, hf'⟩ := optimized_eq h'
  obtain rfl := constructedFunc_inj hf hf'
  exact optimizedFunctions_inj hk hj

theorem mpiFunc_ne_constructed {name : String} (h : m.mpiFunc k = some f) : m.constructedFunc name ≠ some f := by
  intro hf
  obtain ⟨hname, F, hF, rfl⟩ := constructedFunc_name hf
  obtain ⟨G, hG, hGname⟩ := mpiFunc_name ((mpiFunc_used k).trans h)
  obtain rfl := Option.some.inj (hF.symm.trans hG)
  exact name_not_runtime k (hGname ▸ constructed_subset hname)

theorem mpiFunc_ne_optimized (h : m.mpiFunc k = some f) : m.optimized j ≠ some f := by
  intro hf
  obtain ⟨name, -, hcon⟩ := optimized_eq hf
  exact mpiFunc_ne_constructed h hcon

theorem optimized_mem (h : m.optimized k = some f) : k ∈ requestFunctions := by
  obtain ⟨name, hname, -⟩ := optimized_eq h
  cases k <;> first | decide | cases hname

theorem requestCall_iff : m.requestCall op = some (lib, k) ↔ k ∈ requestFunctions ∧
    ∃ f, op.getCalledFunction = some f ∧
      ((lib = .mpi ∧ m.mpiFunc k = some f) ∨ (lib = .mpiopt ∧ m.optimized k = some f)) := by
  constructor
  · intro h
    obtain ⟨f, hf, h⟩ := Option.bind_eq_some_iff.mp h
    obtain ⟨l₁, i, l₂, hl, hi, -⟩ := List.findSome?_eq_some_iff.mp h
    have hmem : i ∈ requestFunctions := by simp [hl]
    split at hi
    · rename_i hm
      cases hi
      exact ⟨hmem, f, hf, Or.inl ⟨rfl, hm⟩⟩
    · split at hi
      · rename_i ho
        cases hi
        exact ⟨hmem, f, hf, Or.inr ⟨rfl, ho⟩⟩
      · cases hi
  · rintro ⟨hk, f, hf, h⟩
    have honly : ∀ i, (if m.mpiFunc i = some f then some (Library.mpi, i)
        else if m.optimized i = some f then some (.mpiopt, i) else none) =
          if i = k then some (lib, k) else none := by
      intro i
      by_cases hik : i = k
      · subst hik
        rw [if_pos rfl]
        rcases h with ⟨rfl, h⟩ | ⟨rfl, h⟩
        · rw [if_pos h]
        · rw [if_neg fun hm => mpiFunc_ne_optimized hm h, if_pos h]
      · rw [if_neg hik]
        rcases h with ⟨-, h⟩ | ⟨-, h⟩
        · rw [if_neg fun hm => hik (mpiFunc_inj hm h), if_neg (mpiFunc_ne_optimized h)]
        · rw [if_neg fun hm => mpiFunc_ne_optimized hm h, if_neg fun ho => hik (optimized_inj ho h)]
    rw [requestCall, hf, Option.bind_some]
    simp only [honly]
    exact findSome_only hk

end

/-! ### Which calls are rewritten -/

section
variable {m : Module} {build : Build} {malloc : Code → Ptr} {sendConflict recvConflict : Ptr → Bool}
  {code code' cur cur' replaced : Code} {changed : Bool} {address : Ptr → Ptr} {n u x : Node} {p : Ptr}
  {ps inits calls : List Ptr} {optimized : MpiFunction → Option FuncId} {v : Operand} {k : MpiFunction}

/-- The user is a call to a function of MPI. -/
def UsedByMpi (m : Module) (u : Node) : Prop :=
  u.op.callBase.isSome = true ∧ m.isMpiFunction u.op.getCalledFunction = true

/-- A call to MPI is collected; of others an assertion checks what they are. -/
theorem usage_spec (h : m.usage build code u = some ps) : (∀ p, p ∈ ps ↔ p = u.ptr ∧ UsedByMpi m u) ∧
    (build = .debug → UsedByMpi m u ∨ ∃ w, u.op = .bitCast w ∧ m.allUsagesAreLifetime code u.ptr = true) := by
  have hassert : ∀ {b : Build} {c : Bool}, assert b c = some () → b = .debug → c = true := by
    rintro b c hc rfl
    unfold assert at hc
    simpa using hc
  unfold usage at h
  split at h
  · rename_i c hc
    split at h
    · rename_i hmpi
      obtain rfl : [u.ptr] = ps := Option.some.inj h
      have hused : UsedByMpi m u := ⟨by rw [hc]; rfl, hmpi⟩
      exact ⟨fun p => by simp [hused], fun _ => Or.inl hused⟩
    · rename_i hmpi
      obtain ⟨⟨⟩, ha, rfl⟩ := Option.map_eq_some_iff.mp h
      have hno : ¬ UsedByMpi m u := fun hu => hmpi hu.2
      refine ⟨fun p => by simp [hno], fun hb => ?_⟩
      exact absurd (hassert ha hb) (by decide)
  · rename_i hc
    have hno : ¬ UsedByMpi m u := by
      intro hu
      have hcall := hu.1
      rw [hc] at hcall
      cases hcall
    split at h
    · rename_i w hop
      obtain ⟨⟨⟩, ha, rfl⟩ := Option.map_eq_some_iff.mp h
      exact ⟨fun p => by simp [hno], fun hb => Or.inr ⟨w, hop, hassert ha hb⟩⟩
    · obtain ⟨⟨⟩, ha, rfl⟩ := Option.map_eq_some_iff.mp h
      refine ⟨fun p => by simp [hno], fun hb => ?_⟩
      exact absurd (hassert ha hb) (by decide)

theorem mem_users_iff : u ∈ code.users v ↔ u ∈ code.nodes ∧ v ∈ u.op.operands := by
  simp only [Code.users, List.mem_flatMap, List.mem_map, List.mem_filter, beq_iff_eq]
  constructor
  · rintro ⟨n, hn, w, ⟨hw, rfl⟩, rfl⟩
    exact ⟨hn, hw⟩
  · rintro ⟨hu, hv⟩
    exact ⟨u, hu, v, ⟨hv, rfl⟩, rfl⟩

/-- What `get_usage_of_request` finds are the calls to MPI that use the request. -/
theorem getUsage_spec (hwf : code.WellFormed) (hx : x ∈ code.nodes)
    (h : m.getUsageOfRequest build code x.ptr = some ps) :
    ∃ callee args req, x.op.callBase = some (callee, args) ∧ args[6]? = some req ∧
      (∀ p, p ∈ ps ↔ ∃ u ∈ code.nodes, u.ptr = p ∧ req ∈ u.op.operands ∧ UsedByMpi m u) ∧
        (build = .debug → ∀ u ∈ code.nodes, req ∈ u.op.operands →
          UsedByMpi m u ∨ ∃ w, u.op = .bitCast w ∧ m.allUsagesAreLifetime code u.ptr = true) := by
  simp only [getUsageOfRequest, Option.bind_eq_some_iff] at h
  obtain ⟨n, hn, -, -, ⟨callee, args⟩, hc, -, -, req, hreq, h⟩ := h
  obtain ⟨hmem, hptr⟩ := Code.node_eq_some hn
  obtain rfl : n = x := eq_of_ptr hwf hmem hx hptr
  obtain ⟨uses, huses, rfl⟩ := Option.map_eq_some_iff.mp h
  obtain ⟨hfrom, hall⟩ := mem_of_mapM _ huses
  refine ⟨callee, args, req, hc, hreq, fun p => ?_, fun hb u hu hreq => ?_⟩
  · rw [List.mem_flatten]
    constructor
    · rintro ⟨us, hus, hp⟩
      obtain ⟨u, hu, heq⟩ := hfrom us hus
      obtain ⟨rfl, hused⟩ := ((usage_spec heq).1 p).mp hp
      obtain ⟨hu, hv⟩ := mem_users_iff.mp hu
      exact ⟨u, hu, rfl, hv, hused⟩
    · rintro ⟨u, hu, rfl, hv, hused⟩
      obtain ⟨us, hus, heq⟩ := hall u (mem_users_iff.mpr ⟨hu, hv⟩)
      exact ⟨us, hus, ((usage_spec heq).1 _).mpr ⟨rfl, hused⟩⟩
  · obtain ⟨us, hus, heq⟩ := hall u (mem_users_iff.mpr ⟨hu, hreq⟩)
    exact (usage_spec heq).2 hb

/-- Every call that is gone through is to a function that is replaced, or an assertion fails. -/
theorem replaceable_of_foldlM (hwf : code.WellFormed) (hmalloc : Fresh malloc) (calls : List Ptr) :
    ∀ (done : List Ptr) (cur : Code) (address : Ptr → Ptr), m.Image optimized done code cur address →
      (done ++ calls).Nodup → (∀ p ∈ calls, IsCallPtr code p) →
      calls.foldlM (m.replaceTurn optimized .debug malloc) cur = some cur' →
      ∀ n ∈ code.nodes, n.ptr ∈ calls → (m.replaceableCall n.op).isSome = true := by
  induction calls with
  | nil =>
      intro done cur address _ _ _ _ n _ hn
      cases hn
  | cons p rest ih =>
      intro done cur address hI hnodup hcalls h k hk hkp
      rw [List.foldlM_cons] at h
      obtain ⟨n, hn, rfl, hcall⟩ := hcalls p List.mem_cons_self
      have hdone : n.ptr ∉ done := fun hd =>
        (List.nodup_append.mp hnodup).2.2 n.ptr hd n.ptr List.mem_cons_self rfl
      cases hturn : m.replaceTurn optimized .debug malloc cur n.ptr with
      | none => simp [hturn] at h
      | some mid =>
          rcases List.mem_cons.mp hkp with hkp | hkp
          · obtain rfl : k = n := eq_of_ptr hwf hk hn hkp
            unfold replaceTurn at hturn
            obtain ⟨y, hy, hturn⟩ := Option.bind_eq_some_iff.mp hturn
            obtain rfl := hI.node hwf hk hdone hy
            rw [replaceableCall_moved] at hturn
            cases hr : m.replaceableCall k.op with
            | some j => rfl
            | none => simp [hr, assert] at hturn
          · rw [hturn] at h
            obtain ⟨address', hI'⟩ := hI.turn hwf hmalloc hn hcall hdone hturn
            have hassoc : done ++ n.ptr :: rest = done ++ [n.ptr] ++ rest := by simp
            rw [hassoc] at hnodup
            exact ih _ _ _ hI' hnodup (fun q hq => hcalls q (List.mem_cons_of_mem _ hq)) h k hk hkp

/-- A call that initialises a request. -/
theorem mem_replacedInits (h : p ∈ m.replacedInits sendConflict recvConflict code) :
    ∃ x ∈ code.nodes, x.ptr = p ∧ x.op.callBase.isSome = true ∧
      (m.requestCall x.op = some (.mpi, .sendInit) ∨ m.requestCall x.op = some (.mpi, .recvInit)) := by
  have hcalls : ∀ (k : MpiFunction) (conflict : Ptr → Bool), k ∈ requestFunctions →
      p ∈ (m.getUsedMpiFunctions.initCalls k code).filter (fun p => !conflict p) →
        ∃ x ∈ code.nodes, x.ptr = p ∧ x.op.callBase.isSome = true ∧ m.requestCall x.op = some (.mpi, k) := by
    intro k conflict hk hp
    obtain ⟨x, hx, rfl⟩ := List.mem_map.mp (List.mem_of_mem_filter hp)
    obtain ⟨hx, hcalled⟩ := List.mem_filter.mp hx
    rw [mpiFunc_used] at hx hcalled
    obtain ⟨hmem, hc⟩ := mem_callUsers hx
    cases hf : m.mpiFunc k with
    | none => simp [hf, callUsers] at hx
    | some f =>
        rw [hf] at hcalled
        exact ⟨x, hmem, rfl, hc, requestCall_iff.mpr ⟨hk, f, eq_of_beq hcalled, Or.inl ⟨rfl, hf⟩⟩⟩
  unfold replacedInits at h
  simp only at h
  split at h
  · rcases List.mem_append.mp h with hp | hp
    · obtain ⟨x, hx, hptr, hc, hcall⟩ := hcalls .sendInit sendConflict (by decide) hp
      exact ⟨x, hx, hptr, hc, Or.inl hcall⟩
    · obtain ⟨x, hx, hptr, hc, hcall⟩ := hcalls .recvInit recvConflict (by decide) hp
      exact ⟨x, hx, hptr, hc, Or.inr hcall⟩
  · cases h

/-- What it gets as its request. -/
theorem requestOf_init (hx : m.requestCall x.op = some (.mpi, .sendInit) ∨ m.requestCall x.op = some (.mpi, .recvInit))
    {callee : Operand} {args : List Operand} (hc : x.op.callBase = some (callee, args)) :
    m.requestOf x.op = args[6]? := by
  rcases hx with hx | hx <;> simp [requestOf, hx, hc, MpiFunction.requestPos]

/-- The calls in the set, and what a build with assertions has found out about them. -/
structure Rewritten (m : Module) (build : Build) (inits calls : List Ptr) (code : Code) : Prop where
  mem : ∀ n ∈ code.nodes, (n.ptr ∈ calls ↔ n.ptr ∈ inits ∨ UsedByMpi m.getUsedMpiFunctions n ∧
    ∃ v ∈ n.op.operands, m.InitialisedBy inits code v)
  found : ∀ x ∈ code.nodes, x.ptr ∈ inits → ∃ v, m.requestOf x.op = some v
  supported : build = .debug → ∀ n ∈ code.nodes, n.ptr ∈ calls →
    (m.getUsedMpiFunctions.replaceableCall n.op).isSome = true
  users : build = .debug → ∀ v, m.InitialisedBy inits code v → ∀ u ∈ code.nodes, v ∈ u.op.operands →
    UsedByMpi m.getUsedMpiFunctions u ∨
      ∃ w, u.op = .bitCast w ∧ m.getUsedMpiFunctions.allUsagesAreLifetime code u.ptr = true

theorem rewritten_spec (hwf : code.WellFormed) (hmalloc : Fresh malloc)
    (h : m.runOnModule build malloc sendConflict recvConflict code = some (changed, code')) :
    Rewritten m build (m.replacedInits sendConflict recvConflict code)
      (m.rewritten build sendConflict recvConflict code) code := by
  obtain ⟨replaced, hreplaced, -⟩ := Option.map_eq_some_iff.mp h
  have hsource : ∀ p ∈ m.replacedInits sendConflict recvConflict code, ∃ x ∈ code.nodes, x.ptr = p ∧
      x.op.callBase.isSome = true ∧
        (m.requestCall x.op = some (.mpi, .sendInit) ∨ m.requestCall x.op = some (.mpi, .recvInit)) :=
    fun p hp => mem_replacedInits hp
  unfold rewritten
  unfold replacedInits at hsource ⊢
  simp only at hsource ⊢
  split at hreplaced
  · rename_i hr
    rw [if_pos hr] at hsource ⊢
    rw [if_pos hr]
    obtain ⟨calls, hcalls, hloop⟩ := Option.bind_eq_some_iff.mp hreplaced
    generalize (m.getUsedMpiFunctions.survivors sendConflict recvConflict code).1 ++
      (m.getUsedMpiFunctions.survivors sendConflict recvConflict code).2 = inits at hsource hcalls ⊢
    rw [hcalls]
    obtain ⟨usages, husages, rfl⟩ := Option.map_eq_some_iff.mp hcalls
    obtain ⟨hfrom, hall⟩ := mem_of_mapM _ husages
    -- the users of the request of a call that is replaced
    have huses : ∀ x ∈ code.nodes, x.ptr ∈ inits → ∃ us v, us ∈ usages ∧ m.requestOf x.op = some v ∧
        (∀ p, p ∈ us ↔ ∃ u ∈ code.nodes, u.ptr = p ∧ v ∈ u.op.operands ∧ UsedByMpi m.getUsedMpiFunctions u) ∧
          (build = .debug → ∀ u ∈ code.nodes, v ∈ u.op.operands → UsedByMpi m.getUsedMpiFunctions u ∨
            ∃ w, u.op = .bitCast w ∧ m.getUsedMpiFunctions.allUsagesAreLifetime code u.ptr = true) := by
      intro x hx hp
      obtain ⟨y, hy, hptr, -, hcall⟩ := hsource x.ptr hp
      obtain rfl : y = x := eq_of_ptr hwf hy hx hptr
      obtain ⟨us, hus, heq⟩ := hall y.ptr hp
      obtain ⟨callee, args, v, hc, hv, hmem, husers⟩ := getUsage_spec hwf hx heq
      exact ⟨us, v, hus, (requestOf_init hcall hc).trans hv, hmem, husers⟩
    refine ⟨fun n hn => ?_, fun x hx hp => ?_, ?_, fun hb v hv u hu hvu => ?_⟩
    · show n.ptr ∈ (inits ++ usages.flatten).dedup.insertionSort (· ≤ ·) ↔ _
      rw [List.mem_insertionSort, List.mem_dedup, List.mem_append]
      refine or_congr_right ?_
      constructor
      · intro hp
        obtain ⟨us, hus, hp⟩ := List.mem_flatten.mp hp
        obtain ⟨p, hpi, heq⟩ := hfrom us hus
        obtain ⟨x, hx, rfl, hc, hcall⟩ := hsource p hpi
        obtain ⟨callee, args, v, hc, hv, hmem, -⟩ := getUsage_spec hwf hx heq
        obtain ⟨u, hu, hptr, hvu, hused⟩ := (hmem n.ptr).mp hp
        obtain rfl : u = n := eq_of_ptr hwf hu hn hptr
        exact ⟨hused, v, hvu, x, hx, hpi, (requestOf_init hcall hc).trans hv⟩
      · rintro ⟨hused, v, hvn, x, hx, hpi, hv⟩
        obtain ⟨us, v', hus, hv', hmem, -⟩ := huses x hx hpi
        obtain rfl : v = v' := Option.some.inj (hv.symm.trans hv')
        exact List.mem_flatten.mpr ⟨us, hus, (hmem n.ptr).mpr ⟨n, hn, rfl, hvn, hused⟩⟩
    · obtain ⟨us, v, -, hv, -⟩ := huses x hx hp
      exact ⟨v, hv⟩
    · rintro rfl n hn hp
      obtain ⟨hnodup, hptrs⟩ := callsToReplace_calls hcalls
      exact replaceable_of_foldlM hwf hmalloc _ [] code id image_start hnodup hptrs hloop n hn hp
    · obtain ⟨x, hx, hpi, hv⟩ := hv
      obtain ⟨us, v', -, hv', -, husers⟩ := huses x hx hpi
      obtain rfl : v = v' := Option.some.inj (hv.symm.trans hv')
      exact husers hb u hu hvu
  · rename_i hr
    rw [if_neg hr, if_neg hr]
    have hno : ∀ v, ¬ m.InitialisedBy [] code v := by
      rintro v ⟨x, -, hp, -⟩
      cases hp
    refine ⟨fun n hn => ?_, fun x hx hp => absurd hp List.not_mem_nil, fun _ n hn hp => absurd hp List.not_mem_nil,
      fun _ v hv => absurd hv (hno v)⟩
    constructor
    · intro hp
      exact absurd hp List.not_mem_nil
    · rintro (hp | ⟨-, v, -, hv⟩)
      · exact hp
      · exact absurd hv (hno v)

/-- A call of a function that gets a request is used by MPI. -/
theorem usedByMpi (h : m.requestCall n.op = some (.mpi, k)) : UsedByMpi m.getUsedMpiFunctions n := by
  obtain ⟨-, f, hf, ⟨-, hk⟩ | ⟨hlib, -⟩⟩ := requestCall_iff.mp h
  · refine ⟨?_, ?_⟩
    · unfold Op.getCalledFunction at hf
      split at hf
      · rename_i hc
        rw [hc]
        rfl
      · cases hf
    · rw [hf]
      exact isMpi_mpiFunc ((mpiFunc_used k).trans hk)
  · cases hlib

theorem requestOf_mem (h : m.requestOf n.op = some v) : v ∈ n.op.operands := by
  obtain ⟨x, -, h⟩ := Option.bind_eq_some_iff.mp h
  obtain ⟨⟨callee, args⟩, hc, hv⟩ := Option.bind_eq_some_iff.mp h
  exact mem_operands_of_callBase hc (List.mem_of_getElem? hv)

/-- **Which calls are rewritten**: those to one of the five functions whose request is initialised by
a call that is replaced. -/
theorem Rewritten.replaces_iff (h : Rewritten m build inits calls code) (htyped : m.RequestsTyped code)
    (hn : n ∈ code.nodes) : m.getUsedMpiFunctions.Replaces calls n ↔
      ∃ k ∈ replaceable, m.requestCall n.op = some (.mpi, k) ∧
        ∃ v, m.requestOf n.op = some v ∧ m.InitialisedBy inits code v := by
  constructor
  · rintro ⟨hp, hsome⟩
    obtain ⟨k, hk⟩ := Option.isSome_iff_exists.mp hsome
    have hmem : k ∈ replaceable := List.mem_of_find?_eq_some hk
    have hcalled : n.op.getCalledFunction = m.mpiFunc k := by
      have hfound := List.find?_some hk
      rw [mpiFunc_used] at hfound
      exact eq_of_beq hfound
    have hfunction : k ∈ requestFunctions := by
      revert hmem
      cases k <;> decide
    have hcall : ∀ {f}, n.op.getCalledFunction = some f → m.requestCall n.op = some (.mpi, k) :=
      fun hf => requestCall_iff.mpr ⟨hfunction, _, hf, Or.inl ⟨rfl, hcalled ▸ hf⟩⟩
    rcases (h.mem n hn).mp hp with hp | ⟨⟨-, hmpi⟩, v, hv, hinit⟩
    · obtain ⟨v, hv⟩ := h.found n hn hp
      obtain ⟨x, hx, -⟩ := Option.bind_eq_some_iff.mp hv
      obtain ⟨f, hf, -⟩ := Option.bind_eq_some_iff.mp hx
      exact ⟨k, hmem, hcall hf, v, hv, n, hn, hp, hv⟩
    · cases hf : n.op.getCalledFunction with
      | none => simp [hf, isMpiFunction] at hmpi
      | some f =>
          obtain ⟨x, hx, hpx, hvx⟩ := hinit
          have hvn := htyped x hx n hn v hvx hv (by rw [hcall hf]; rfl)
          exact ⟨k, hmem, hcall hf, v, hvn, x, hx, hpx, hvx⟩
  · rintro ⟨k, hmem, hcall, v, hv, hinit⟩
    refine ⟨(h.mem n hn).mpr (Or.inr ⟨usedByMpi hcall, v, requestOf_mem hv, hinit⟩), ?_⟩
    obtain ⟨-, f, hf, ⟨-, hk⟩ | ⟨hlib, -⟩⟩ := requestCall_iff.mp hcall
    · rw [replaceableCall, List.find?_isSome]
      exact ⟨k, hmem, by rw [mpiFunc_used, hf, hk, beq_self_eq_true]⟩
    · cases hlib

end

/-! ### The code after the pass -/

section
variable {m : Module} {build : Build} {malloc : Code → Ptr} {sendConflict recvConflict : Ptr → Bool}
  {code code' : Code} {changed : Bool} {address : Ptr → Ptr} {n n' : Node}
  {inits calls : List Ptr} {v v' : Operand} {k : MpiFunction}

/-- What is known of the code after the pass. -/
structure Optimized (m : Module) (build : Build) (inits calls : List Ptr) (code code' : Code)
    (address : Ptr → Ptr) : Prop extends Rewritten m build inits calls code where
  wellFormed : code.WellFormed
  of : code.Of m
  pristine : m.Pristine
  erase : code'.mapNodes (·.filter fun n => !m.isInserted n) =
    code.mapNodes (·.map (m.getUsedMpiFunctions.expected m.optimized calls address))
  inserted : ∀ n ∈ code'.nodes, m.isInserted n = true → ∃ g, n.op = .call (.function g) []
  injective : ∀ p q, p ∈ code.nodes.map Node.ptr → q ∈ code.nodes.map Node.ptr → address p = address q → p = q
  isCall : ∀ n ∈ code.nodes, m.getUsedMpiFunctions.Replaces calls n → n.op.callBase.isSome = true
  constructed : ∀ n ∈ code.nodes, m.getUsedMpiFunctions.Replaces calls n →
    ((m.getUsedMpiFunctions.replaceableCall n.op).bind m.optimized).isSome = true

theorem runOnModule_optimized (hwf : code.WellFormed) (hof : code.Of m) (hnew : m.Pristine) (hmalloc : Fresh malloc)
    (h : m.runOnModule build malloc sendConflict recvConflict code = some (changed, code')) :
    ∃ address, Optimized m build (m.replacedInits sendConflict recvConflict code)
      (m.rewritten build sendConflict recvConflict code) code code' address := by
  obtain ⟨replaced, address, hI, hcalls, hgrown⟩ := runOnModule_erase hwf hof hnew hmalloc h
  exact ⟨address, rewritten_spec hwf hmalloc h, hwf, hof, hnew, hgrown.erase.trans hI.code_eq, hgrown.calls,
    hI.injective, hcalls, hI.constructed⟩

/--
**What the pass does to a program**: without the inserted calls its code is that of the program, with
exactly those calls replaced whose request a call initialises for which no conflict was found.
-/
theorem runOnModule_effect (hwf : code.WellFormed) (hof : code.Of m) (hnew : m.Pristine) (hmalloc : Fresh malloc)
    (htyped : m.RequestsTyped code)
    (h : m.runOnModule build malloc sendConflict recvConflict code = some (changed, code')) :
    (∃ address, code'.mapNodes (·.filter fun n => !m.isInserted n) = code.mapNodes (·.map
      (m.getUsedMpiFunctions.expected m.optimized (m.rewritten build sendConflict recvConflict code) address))) ∧
    ∀ n ∈ code.nodes, m.getUsedMpiFunctions.Replaces (m.rewritten build sendConflict recvConflict code) n ↔
      ∃ k ∈ replaceable, m.requestCall n.op = some (.mpi, k) ∧ ∃ v, m.requestOf n.op = some v ∧
        m.InitialisedBy (m.replacedInits sendConflict recvConflict code) code v := by
  obtain ⟨address, hopt⟩ := runOnModule_optimized hwf hof hnew hmalloc h
  exact ⟨⟨address, hopt.erase⟩, fun n hn => hopt.toRewritten.replaces_iff htyped hn⟩

/-- An instruction is an inserted call, or has the place of one of the program. -/
theorem Optimized.source (h : Optimized m build inits calls code code' address) (hn : n' ∈ code'.nodes) :
    m.isInserted n' = true ∨
      ∃ n ∈ code.nodes, n' = m.getUsedMpiFunctions.expected m.optimized calls address n := by
  cases hins : m.isInserted n' with
  | true => exact Or.inl rfl
  | false =>
      right
      obtain ⟨b, hb, hnb⟩ := List.mem_flatMap.mp hn
      have hmem : n' ∈ (code'.mapNodes (·.filter fun n => !m.isInserted n)).nodes := by
        refine List.mem_flatMap.mpr ⟨_, List.mem_map_of_mem hb, ?_⟩
        exact List.mem_filter.mpr ⟨hnb, by simp [hins]⟩
      rw [h.erase, Code.nodes_mapNodes_map] at hmem
      obtain ⟨n, hn, heq⟩ := List.mem_map.mp hmem
      exact ⟨n, hn, heq.symm⟩

/-- Operands of the program are told apart after the pass. -/
theorem Optimized.moved_inj (h : Optimized m build inits calls code code' address) {x : Node} (hx : x ∈ code.nodes)
    (hn : n ∈ code.nodes) (hv : v ∈ x.op.operands) (hv' : v' ∈ n.op.operands)
    (heq : Moved address v = Moved address v') : v = v' := by
  cases v with
  | inst p =>
      cases v' with
      | inst q =>
          have hpq : address p = address q := by simpa [Moved] using heq
          rw [h.injective p q (h.wellFormed.defined x hx p hv) (h.wellFormed.defined n hn q hv') hpq]
      | function f | other i => cases heq
  | function f | other i =>
      cases v' with
      | inst q => cases heq
      | function g | other j => exact heq

/-- An inserted call does not use a request. -/
theorem Optimized.inserted_operand (h : Optimized m build inits calls code code' address) (hn : n' ∈ code'.nodes)
    (hins : m.isInserted n' = true) {x : Node} (hx : x ∈ code.nodes) (hv : v ∈ x.op.operands) :
    Moved address v ∉ n'.op.operands := by
  intro hmem
  obtain ⟨g, hop⟩ := h.inserted n' hn hins
  obtain ⟨f, hcalled, hf⟩ := isInserted_iff.mp hins
  obtain rfl : g = f := by simpa [hop, Op.getCalledFunction, Op.callBase] using hcalled
  have heq : Moved address v = .function g := by simpa [hop, Op.operands] using hmem
  have hvf : v = .function g := by
    cases v with
    | inst p => cases heq
    | function j | other j => exact heq
  have hlt := h.of.operands x hx g (hvf ▸ hv)
  have hle := (inserted_new h.pristine hf).1
  omega

/-- What is called in the place of a rewritten call. -/
theorem Optimized.replaced (h : Optimized m build inits calls code code' address) (hn : n ∈ code.nodes)
    (hr : m.getUsedMpiFunctions.Replaces calls n) : ∃ j, m.requestCall n.op = some (.mpi, j) ∧
      m.requestCall (m.getUsedMpiFunctions.expected m.optimized calls address n).op = some (.mpiopt, j) ∧
        m.requestOf (m.getUsedMpiFunctions.expected m.optimized calls address n).op =
          (m.requestOf n.op).map (Moved address) := by
  obtain ⟨j, f, callee, args, hj, hsome, hf, hc, hrep⟩ := replacement_eq (h.isCall n hn hr) hr (h.constructed n hn hr)
  obtain ⟨g, hg⟩ := Option.isSome_iff_exists.mp hsome
  have hmem := optimized_mem hf
  have hop : (m.getUsedMpiFunctions.expected m.optimized calls address n).op =
      .call (.function f) (args.map (Moved address)) := by
    rw [expected, if_pos hr, hrep]
    rfl
  have hcall : m.requestCall n.op = some (.mpi, j) := requestCall_iff.mpr ⟨hmem, g, hg, Or.inl ⟨rfl, hj.trans hg⟩⟩
  have hcall' : m.requestCall (m.getUsedMpiFunctions.expected m.optimized calls address n).op = some (.mpiopt, j) :=
    requestCall_iff.mpr ⟨hmem, f, by rw [hop]; rfl, Or.inr ⟨rfl, hf⟩⟩
  refine ⟨j, hcall, hcall', ?_⟩
  rw [requestOf, hcall', requestOf, hcall, hop, hc]
  simp [Op.callBase]

/-- Other instructions call what they have called. -/
theorem Optimized.kept (_ : Optimized m build inits calls code code' address)
    (hr : ¬ m.getUsedMpiFunctions.Replaces calls n) :
    (m.getUsedMpiFunctions.expected m.optimized calls address n).op = n.op.mapOperands (Moved address) ∧
      m.requestCall (m.getUsedMpiFunctions.expected m.optimized calls address n).op = m.requestCall n.op ∧
        m.requestOf (m.getUsedMpiFunctions.expected m.optimized calls address n).op =
          (m.requestOf n.op).map (Moved address) := by
  have hop : (m.getUsedMpiFunctions.expected m.optimized calls address n).op = n.op.mapOperands (Moved address) := by
    rw [expected, if_neg hr]
  have hcall : m.requestCall (m.getUsedMpiFunctions.expected m.optimized calls address n).op = m.requestCall n.op := by
    rw [requestCall, requestCall, called_expected hr]
  refine ⟨hop, hcall, ?_⟩
  rw [requestOf, requestOf, hcall, hop, Op.callBase_mapOperands]
  cases hc : n.op.callBase with
  | none => simp
  | some c =>
      cases m.requestCall n.op with
      | none => rfl
      | some x => simp

theorem operands_mapOperands {g : Operand → Operand} {op : Op} :
    (op.mapOperands g).operands = op.operands.map g := by
  cases op <;> simp [Op.mapOperands, Op.operands]

/-- The operands by which rewritten calls get their request. -/
def Replaced (m : Module) (inits : List Ptr) (code : Code) (address : Ptr → Ptr) (v' : Operand) : Prop :=
  ∃ v, m.InitialisedBy inits code v ∧ v' = Moved address v

/-- The program itself does not call the runtime. -/
theorem Optimized.plain (h : Optimized m build inits calls code code' address) (hn : n ∈ code.nodes) :
    m.requestCall n.op ≠ some (.mpiopt, k) := by
  intro hcall
  obtain ⟨-, f, hf, ⟨hlib, -⟩ | ⟨-, hk⟩⟩ := requestCall_iff.mp hcall
  · cases hlib
  · obtain ⟨name, -, hcon⟩ := optimized_eq hk
    have hlt := h.of.operands n hn f (called_mem hf)
    have hle := constructedFunc_new h.pristine hcon
    omega

/-- A call to the runtime gets such an operand. -/
theorem Optimized.runtime_request (h : Optimized m build inits calls code code' address)
    (htyped : m.RequestsTyped code) (hn : n' ∈ code'.nodes) (hcall : m.requestCall n'.op = some (.mpiopt, k))
    (hv : m.requestOf n'.op = some v') : Replaced m inits code address v' := by
  rcases h.source hn with hins | ⟨n, hmem, rfl⟩
  · obtain ⟨f, hf, hins⟩ := isInserted_iff.mp hins
    obtain ⟨-, f', hf', ⟨hlib, -⟩ | ⟨-, hk⟩⟩ := requestCall_iff.mp hcall
    · cases hlib
    · obtain rfl := Option.some.inj (hf.symm.trans hf')
      exact absurd hk (optimized_ne hins k)
  · by_cases hr : m.getUsedMpiFunctions.Replaces calls n
    · obtain ⟨j, -, -, hreq⟩ := h.replaced hmem hr
      rw [hreq] at hv
      obtain ⟨v, hv₀, rfl⟩ := Option.map_eq_some_iff.mp hv
      obtain ⟨i, -, -, w, hw, hinit⟩ := (h.toRewritten.replaces_iff htyped hmem).mp hr
      obtain rfl : v = w := Option.some.inj (hv₀.symm.trans hw)
      exact ⟨v, hinit, rfl⟩
    · rw [(h.kept hr).2.1] at hcall
      exact absurd hcall (h.plain hmem)

/-- In a build with assertions, a call to MPI gets no such operand. -/
theorem Optimized.mpi_request (h : Optimized m .debug inits calls code code' address) (hn : n' ∈ code'.nodes)
    (hcall : m.requestCall n'.op = some (.mpi, k)) (hv : m.requestOf n'.op = some v') :
    ¬ Replaced m inits code address v' := by
  rintro ⟨w, hinit, rfl⟩
  obtain ⟨x, hx, hpx, hw⟩ := id hinit
  rcases h.source hn with hins | ⟨n, hmem, rfl⟩
  · exact h.inserted_operand hn hins hx (requestOf_mem hw) (requestOf_mem hv)
  · by_cases hr : m.getUsedMpiFunctions.Replaces calls n
    · obtain ⟨j, -, hcall', -⟩ := h.replaced hmem hr
      rw [hcall'] at hcall
      cases hcall
    · obtain ⟨-, hcall', hreq⟩ := h.kept hr
      rw [hcall'] at hcall
      rw [hreq] at hv
      obtain ⟨v, hv₀, heq⟩ := Option.map_eq_some_iff.mp hv
      obtain rfl : v = w := h.moved_inj hmem hx (requestOf_mem hv₀) (requestOf_mem hw) heq
      have hp : n.ptr ∈ calls := (h.mem n hmem).mpr (Or.inr ⟨usedByMpi hcall, v, requestOf_mem hv₀, hinit⟩)
      exact hr ⟨hp, h.supported rfl n hmem hp⟩

/-- And other instructions do not use it, but for markers of its lifetime. -/
theorem Optimized.other_operand (h : Optimized m .debug inits calls code code' address) (hn : n' ∈ code'.nodes)
    (hcall : m.requestCall n'.op = none) (haccess : n'.op.accesses = true)
    (hv : Replaced m inits code address v') (huse : v' ∈ n'.op.operands ∨
      ∃ b ∈ code'.nodes, b.op = .bitCast v' ∧ .inst b.ptr ∈ n'.op.operands) : m.callsIntrinsic n'.op = true := by
  obtain ⟨w, hinit, rfl⟩ := hv
  obtain ⟨x, hx, -, hw⟩ := id hinit
  -- an instruction that is not to MPI is as it was
  have hkept : ∀ n ∈ code.nodes,
      m.requestCall (m.getUsedMpiFunctions.expected m.optimized calls address n).op = none →
        ¬ m.getUsedMpiFunctions.Replaces calls n := by
    intro n hn hnone hr
    obtain ⟨j, -, hcall', -⟩ := h.replaced hn hr
    rw [hnone] at hcall'
    cases hcall'
  have huser : ∀ n ∈ code.nodes, ¬ m.getUsedMpiFunctions.Replaces calls n → w ∈ n.op.operands →
      ∃ u, n.op = .bitCast u ∧ m.getUsedMpiFunctions.allUsagesAreLifetime code n.ptr = true := by
    intro n hn hr hwn
    refine (h.users rfl w hinit n hn hwn).resolve_left fun hused => ?_
    have hp : n.ptr ∈ calls := (h.mem n hn).mpr (Or.inr ⟨hused, w, hwn, hinit⟩)
    exact hr ⟨hp, h.supported rfl n hn hp⟩
  rcases huse with hmem | ⟨b, hb, hbop, hmem⟩
  · exfalso
    rcases h.source hn with hins | ⟨n, hsrc, rfl⟩
    · exact h.inserted_operand hn hins hx (requestOf_mem hw) hmem
    · have hr := hkept n hsrc hcall
      rw [(h.kept hr).1, operands_mapOperands] at hmem
      obtain ⟨v, hv, heq⟩ := List.mem_map.mp hmem
      obtain rfl : v = w := h.moved_inj hsrc hx hv (requestOf_mem hw) heq
      obtain ⟨u, hop, -⟩ := huser n hsrc hr hv
      rw [(h.kept hr).1, hop] at haccess
      cases haccess
  · have hbnone : m.requestCall b.op = none := by
      rw [hbop]
      rfl
    rcases h.source hb with hins | ⟨b, hbsrc, rfl⟩
    · obtain ⟨g, hop⟩ := h.inserted b hb hins
      rw [hop] at hbop
      cases hbop
    · have hr := hkept b hbsrc hbnone
      have hbase : b.op.mapOperands (Moved address) = .bitCast (Moved address w) := (h.kept hr).1.symm.trans hbop
      have hwb : w ∈ b.op.operands := by
        have hmem' : Moved address w ∈ (b.op.mapOperands (Moved address)).operands := by
          rw [hbase]
          exact List.mem_singleton_self _
        rw [operands_mapOperands] at hmem'
        obtain ⟨v, hv, heq⟩ := List.mem_map.mp hmem'
        obtain rfl : v = w := h.moved_inj hbsrc hx hv (requestOf_mem hw) heq
        exact hv
      obtain ⟨u, hop, hlife⟩ := huser b hbsrc hr hwb
      rcases h.source hn with hins | ⟨n, hsrc, rfl⟩
      · obtain ⟨g, hop⟩ := h.inserted n' hn hins
        simp [hop, Op.operands] at hmem
      · have hrn := hkept n hsrc hcall
        rw [(h.kept hrn).1, operands_mapOperands] at hmem
        obtain ⟨v, hv, heq⟩ := List.mem_map.mp hmem
        have hvb : v = .inst b.ptr := by
          cases v with
          | inst p =>
              have hp : address p = address b.ptr := by simpa [Moved, expected] using heq
              rw [h.injective p b.ptr (h.wellFormed.defined n hsrc p hv) (List.mem_map_of_mem hbsrc) hp]
          | function f | other i => cases heq
        have hall := List.all_eq_true.mp hlife n (mem_users_iff.mpr ⟨hsrc, hvb ▸ hv⟩)
        rw [callsIntrinsic, called_expected hrn]
        exact hall

/-! ### Executions -/

/-- A variable holds a handle of the runtime only if the calls that get it are to the runtime, and
then never one of MPI. -/
structure HandleInv (m : Module) (inits : List Ptr) (code code' : Code) (address : Ptr → Ptr)
    (operandOf : Nat → Operand) (r : HandleRun) : Prop where
  stack : code'.StackIn r.stack
  runtime : ∀ a, r.writer a = some .mpiopt → Replaced m inits code address (operandOf a)
  mpi : ∀ a, Replaced m inits code address (operandOf a) → r.writer a ≠ some .mpi
  escaped : r.escaped = false
  calls : ∀ x ∈ r.calls, x.2 = none ∨ x.2 = some x.1

variable {r r' : HandleRun} {a : HandleAct} {operandOf : Nat → Operand}

theorem HandleInv.started {f : FuncId} (h : HandleStarted code' f r) :
    HandleInv m inits code code' address operandOf r := by
  obtain ⟨hstack, hwriter, hescaped, hcalls⟩ := h
  refine ⟨Code.stackIn_started hstack, fun b hb => ?_, fun b _ hb => ?_, hescaped, fun x hx => ?_⟩
  · simp [hwriter] at hb
  · simp [hwriter] at hb
  · simp [hcalls] at hx

/-- A call to MPI or the runtime. -/
theorem HandleInv.call (h : Optimized m .debug inits calls code code' address) (htyped : m.RequestsTyped code)
    (hI : HandleInv m inits code code' address operandOf r) (hn : n' ∈ code'.nodes) {lib : Library}
    (hcall : m.requestCall n'.op = some (lib, k)) (hreq : m.requestOf n'.op = some (operandOf a.var)) :
    HandleInv m inits code code' address operandOf { r with
      calls := r.calls ++ [(lib, r.writer a.var)]
      writer := if k.writesRequest then Function.update r.writer a.var (some lib) else r.writer } := by
  have hlib : Replaced m inits code address (operandOf a.var) ↔ lib = .mpiopt := by
    cases lib with
    | mpi =>
        have hno := h.mpi_request hn hcall hreq
        simp [hno]
    | mpiopt =>
        have hyes := h.runtime_request htyped hn hcall hreq
        simp [hyes]
  have hwriter : ∀ b w, (if k.writesRequest then Function.update r.writer a.var (some lib) else r.writer) b = w →
      r.writer b = w ∨ b = a.var ∧ w = some lib := by
    intro b w hw
    split at hw
    · by_cases hb : b = a.var
      · subst hb
        rw [Function.update_self] at hw
        exact Or.inr ⟨rfl, hw.symm⟩
      · rw [Function.update_of_ne hb] at hw
        exact Or.inl hw
    · exact Or.inl hw
  refine ⟨hI.stack, fun b hb => ?_, fun b hb hm => ?_, hI.escaped, fun x hx => ?_⟩
  · rcases hwriter b _ hb with hold | ⟨rfl, heq⟩
    · exact hI.runtime b hold
    · exact hlib.mpr (Option.some.inj heq).symm
  · rcases hwriter b _ hm with hold | ⟨rfl, heq⟩
    · exact hI.mpi b hb hold
    · obtain rfl := Option.some.inj heq
      exact absurd (hlib.mp hb) (by decide)
  · rcases List.mem_append.mp hx with hx | hx
    · exact hI.calls x hx
    · obtain rfl := List.mem_singleton.mp hx
      cases hw : r.writer a.var with
      | none => exact Or.inl rfl
      | some w =>
          right
          show some w = some lib
          cases w with
          | mpiopt => rw [hlib.mp (hI.runtime _ hw)]
          | mpi =>
              have hno := fun hrep => hI.mpi _ hrep hw
              cases lib with
              | mpi => rfl
              | mpiopt => exact absurd (hlib.mpr rfl) hno

/-- Another instruction. -/
theorem HandleInv.other (h : Optimized m .debug inits calls code code' address)
    (hI : HandleInv m inits code code' address operandOf r) (hn : n' ∈ code'.nodes)
    (hnone : m.requestCall n'.op = none) (hok : m.OneOperand code' operandOf r a)
    (hshown : n' ∈ Procedures.shows Code.visible r.stack a.choice) (hs : m.handleEffect a r n' = some r') :
    HandleInv m inits code code' address operandOf r' := by
  -- an access to a request of the runtime can only be a marker
  have hmarker : a.access ≠ .nothing → Replaced m inits code address (operandOf a.var) → a.access = .writes none := by
    intro hne hrep
    obtain ⟨haccess, huse⟩ := hok.access n' hshown hnone hne
    have hint := h.other_operand hn hnone haccess hrep huse
    exact (hok.intrinsic n' hshown hint).resolve_left hne
  simp only [handleEffect, hnone] at hs
  split at hs
  · obtain rfl := Option.some.inj hs
    exact hI
  · rename_i hread
    obtain rfl := Option.some.inj hs
    refine ⟨hI.stack, hI.runtime, hI.mpi, ?_, hI.calls⟩
    show (r.escaped || r.writer a.var == some .mpiopt) = false
    rw [hI.escaped, Bool.false_or, beq_eq_false_iff_ne]
    intro hw
    have hno := hmarker (by rw [hread]; exact Access.noConfusion) (hI.runtime _ hw)
    rw [hread] at hno
    cases hno
  · rename_i w hwrite
    split at hs
    · cases hs
    · rename_i hguard
      obtain rfl := Option.some.inj hs
      have hw : w ≠ some .mpiopt := fun hw => hguard ⟨hw, hI.escaped⟩
      refine ⟨hI.stack, fun b hb => ?_, fun b hb hm => ?_, hI.escaped, hI.calls⟩
      · by_cases hba : b = a.var
        · subst hba
          simp only [Function.update_self] at hb
          exact absurd hb hw
        · simp only [Function.update_of_ne hba] at hb
          exact hI.runtime b hb
      · by_cases hba : b = a.var
        · subst hba
          have hnone := hmarker (by rw [hwrite]; exact Access.noConfusion) hb
          rw [hwrite] at hnone
          cases hnone
          simp at hm
        · simp only [Function.update_of_ne hba] at hm
          exact hI.mpi b hb hm

/-- **Step lemma.** -/
theorem HandleInv.step (h : Optimized m .debug inits calls code code' address) (htyped : m.RequestsTyped code)
    (hI : HandleInv m inits code code' address operandOf r) (hok : m.OneOperand code' operandOf r a)
    (hs : m.handleStep code' r a = some r') : HandleInv m inits code code' address operandOf r' := by
  obtain ⟨stack, hstep, hs⟩ := Option.bind_eq_some_iff.mp hs
  obtain ⟨r₁, heffect, rfl⟩ := Option.map_eq_some_iff.mp hs
  have hstack := hI.stack.step hstep
  suffices hI₁ : HandleInv m inits code code' address operandOf r₁ from
    ⟨hstack, hI₁.runtime, hI₁.mpi, hI₁.escaped, hI₁.calls⟩
  rcases Code.shows_cases r.stack a.choice with hnil | ⟨n, hone⟩
  · rw [hnil] at heffect
    obtain rfl : r = r₁ := Option.some.inj heffect
    exact hI
  · have hshown : n ∈ Procedures.shows Code.visible r.stack a.choice := by
      rw [hone]
      exact List.mem_singleton_self _
    have hn := Code.mem_shows hI.stack hshown
    rw [hone, List.foldlM_cons] at heffect
    have heffect : m.handleEffect a r n = some r₁ := by simpa using heffect
    cases hcall : m.requestCall n.op with
    | none => exact hI.other h hn hcall hok hshown heffect
    | some x =>
        obtain ⟨lib, k⟩ := x
        have hreq := hok.request n hshown (by rw [hcall]; rfl)
        simp only [handleEffect, hcall] at heffect
        obtain rfl := Option.some.inj heffect
        exact hI.call h htyped hn hcall hreq

/--
**No library gets a handle of the other one**, in any execution of what a build with assertions
makes of the program; and no handle of the runtime is read by anything else.
-/
theorem handles_never_mixed (hwf : code.WellFormed) (hof : code.Of m) (hnew : m.Pristine) (hmalloc : Fresh malloc)
    (h : m.runOnModule .debug malloc sendConflict recvConflict code = some (changed, code'))
    (htyped : m.RequestsTyped code) {f : FuncId}
    (hr : Reach (m.handleStep code') (m.OneOperand code' operandOf) (HandleStarted code' f) r) :
    (∀ x ∈ r.calls, x.2 = none ∨ x.2 = some x.1) ∧ r.escaped = false := by
  obtain ⟨address, hopt⟩ := runOnModule_optimized hwf hof hnew hmalloc h
  have hI := hr.invariant (I := HandleInv m _ code code' address operandOf) (fun _ hs => .started hs)
    fun _ _ _ hI hok hs => hI.step hopt htyped hok hs
  exact ⟨hI.calls, hI.escaped⟩

end

/-! ### The program with persistent requests -/

section
variable {m : Module} {code : Code} {operandOf : Nat → Operand} {r : HandleRun} {a : HandleAct}

theorem requestsTyped_of_check (h : (code.nodes.all fun x => (m.requestOf x.op).all fun v => code.nodes.all fun n =>
    !n.op.operands.contains v || m.requestOf n.op == some v || (m.requestCall n.op).isNone) = true) :
    m.RequestsTyped code := by
  intro x hx n hn v hv hmem hcall
  have hnodes := List.all_eq_true.mp h x hx
  rw [hv, Option.all_some] at hnodes
  have huse := List.all_eq_true.mp hnodes n hn
  simpa [hmem, Option.isSome_iff_ne_none.mp hcall] using huse

instance : Decidable (m.OneOperand code operandOf r a) :=
  decidable_of_iff
    ((∀ n ∈ Procedures.shows Code.visible r.stack a.choice, (m.requestCall n.op).isSome = true →
        m.requestOf n.op = some (operandOf a.var)) ∧
      (∀ n ∈ Procedures.shows Code.visible r.stack a.choice, m.requestCall n.op = none →
        a.access ≠ .nothing → n.op.accesses = true ∧ (operandOf a.var ∈ n.op.operands ∨
          ∃ b ∈ code.nodes, b.op = .bitCast (operandOf a.var) ∧ .inst b.ptr ∈ n.op.operands)) ∧
      ∀ n ∈ Procedures.shows Code.visible r.stack a.choice, m.callsIntrinsic n.op = true →
        a.access = .nothing ∨ a.access = .writes none)
    ⟨fun h => ⟨h.1, h.2.1, h.2.2⟩, fun h => ⟨h.request, h.access, h.intrinsic⟩⟩

end

/-- A request for which a conflict was found, but which another call initialises too. -/
def sharedInit : Node := ⟨6, .call (.function 2) ((List.range 6).map .other ++ [.inst 0])⟩

theorem sharedInit_replaced :
    match persistentRun 0 with
    | some (_, code') =>
        (∃ address, code'.mapNodes (·.filter fun n => !persistentModule.isInserted n) =
          (persistentCode 0).mapNodes (·.map (persistentModule.getUsedMpiFunctions.expected persistentModule.optimized
            (persistentModule.rewritten .debug (· == 6) (fun _ => false) (persistentCode 0)) address))) ∧
        persistentModule.getUsedMpiFunctions.Replaces
          (persistentModule.rewritten .debug (· == 6) (fun _ => false) (persistentCode 0)) sharedInit
    | none => False := by
  have hrun : (persistentRun 0).isSome = true := by decide
  have hcall : persistentModule.requestCall sharedInit.op = some (.mpi, .sendInit) := by decide
  have hrequest : persistentModule.requestOf sharedInit.op = some (.inst 0) := by decide
  have hother : ∃ x ∈ (persistentCode 0).nodes,
      x.ptr ∈ persistentModule.replacedInits (· == 6) (fun _ => false) (persistentCode 0) ∧
        persistentModule.requestOf x.op = some (.inst 0) := by
    decide +kernel
  cases h : persistentRun 0 with
  | none => simp [h] at hrun
  | some x =>
      obtain ⟨changed, code'⟩ := x
      obtain ⟨hcode, hiff⟩ := runOnModule_effect (Code.wellFormed_of_check (by decide)) (persistentCode_of 0)
        persistentModule_pristine fresh_nextPtr (requestsTyped_of_check (by decide)) h
      exact ⟨hcode, (hiff sharedInit (by decide)).mpr ⟨.sendInit, by decide, hcall, .inst 0, hrequest, hother⟩⟩

/-- `main` is called. -/
def handleStart (code : Code) : HandleRun := ⟨[(0, .at (code.entryNodes 0))], fun _ => none, false, []⟩

/-- The loop is run through twice; the variables of the requests are those at `0`, `1` and `2`. -/
def handleActs : List HandleAct :=
  let go := fun v => HandleAct.mk (.goes 0) v .nothing
  [0, 0, 0, 0, 0, 0, 1, 2, 0].map go ++ [0, 1, 2, 0, 1, 2, 0].map go ++ [0, 1, 2, 0, 1, 2].map go ++
    [⟨.goes 1, 0, .nothing⟩] ++ [0, 1, 2, 0, 0, 0].map go

theorem persistentCode_handles :
    match persistentRun 2 with
    | some (_, code') =>
        match runFrom (guarded (fun r a => decide (persistentModule.OneOperand code' .inst r a))
          (persistentModule.handleStep code')) (handleStart code') handleActs with
        | some r => ((∀ x ∈ r.calls, x.2 = none ∨ x.2 = some x.1) ∧ r.escaped = false) ∧
            r.calls = [(.mpiopt, none), (.mpiopt, none), (.mpi, none)] ++
              (List.replicate 5 [(.mpiopt, some .mpiopt), (.mpiopt, some .mpiopt), (.mpi, some .mpi)]).flatten
        | none => False
    | none => False := by
  have hrun : (persistentRun 2).any (fun x => (runFrom
      (guarded (fun r a => decide (persistentModule.OneOperand x.2 .inst r a)) (persistentModule.handleStep x.2))
      (handleStart x.2) handleActs).any fun r => decide (r.calls =
        [(.mpiopt, none), (.mpiopt, none), (.mpi, none)] ++
          (List.replicate 5 [(.mpiopt, some .mpiopt), (.mpiopt, some .mpiopt), (.mpi, some .mpi)]).flatten)) = true := by
    decide +kernel
  cases h : persistentRun 2 with
  | none => simp [h] at hrun
  | some x =>
      obtain ⟨changed, code'⟩ := x
      rw [h, Option.any_some] at hrun
      simp only
      cases hr : runFrom (guarded (fun r a => decide (persistentModule.OneOperand code' .inst r a))
          (persistentModule.handleStep code')) (handleStart code') handleActs with
      | none => simp [hr] at hrun
      | some r =>
          simp only [hr, Option.any_some, decide_eq_true_eq] at hrun
          have hstart : HandleStarted code' 0 (handleStart code') := ⟨rfl, rfl, rfl, rfl⟩
          refine ⟨?_, hrun⟩
          exact handles_never_mixed (Code.wellFormed_of_check (by decide)) (persistentCode_of 2)
            persistentModule_pristine fresh_nextPtr h (requestsTyped_of_check (by decide))
            (.of_guarded (fun _ _ hok => of_decide_eq_true hok) _ (.init hstart) hr)

end Module

end CompMatch.Pass
