import Mathlib.Data.Multiset.Basic
import PowerApi.Api.HandleTable
import PowerApi.Types

open HashTable

namespace pwrapi

/-- The state of the log of the application hints, with the logs that were started and not
terminated yet. -/
structure HintLog where
  initcount : Nat := 0
  logctx : Option Nat := none
  opened : List Nat := []
  deriving DecidableEq, Repr

/-- What `app_hint_init` finds in the environment, and how the logger answers it. -/
structure HintEnv where
  PWR_HINT_LOG_PATH : Option String := none
  PWR_HINT_MAX_FILE_SIZE : Int := 0
  PWR_HINT_MAX_FILE_COUNT : Int := 0
  pmlog_init_new : String → Int → Int → Int → Int → Option Nat := fun _ _ _ _ _ => none

def app_hint_init (env : HintEnv) (h : HintLog) : HintLog :=
  let h := { h with initcount := h.initcount + 1 }
  match h.logctx, env.PWR_HINT_LOG_PATH with
  | some _, _ => h
  | none, none => h
  | none, some path =>
    -- no rings but the one of the messages
    let logctx := env.pmlog_init_new path env.PWR_HINT_MAX_FILE_SIZE env.PWR_HINT_MAX_FILE_COUNT (-1) (-1)
    { h with logctx, opened := logctx.toList ++ h.opened }

def app_hint_term (h : HintLog) : HintLog :=
  if h.initcount = 0 then h
  else
    let h := { h with initcount := h.initcount - 1 }
    if h.initcount > 0 then h
    else
      match h.logctx with
      | none => h
      | some log => { h with logctx := none, opened := h.opened.erase log }

/-- The two functions of `plugin_t` that `hierarchy.c` calls, on the data that the plugin
keeps for the process. A construction that brings the process down returns nothing. -/
structure Plugin (μ η ι : Type) where
  construct_hierarchy : ι → μ → Option (Int × η × μ)
  destruct_hierarchy : η → μ → μ

section Hierarchy

variable {μ η ι : Type} (plugin : Plugin μ η ι)

def del_hierarchy (hierarchy : Option η) (data : μ) : μ :=
  match hierarchy with
  | none => data
  | some hierarchy => plugin.destruct_hierarchy hierarchy data

def new_hierarchy (system : ι) (data : μ) : Option (Option η × μ) :=
  match plugin.construct_hierarchy system data with
  | none => none
  | some (status, hierarchy, data) =>
    if status ≠ 0 then some (none, del_hierarchy plugin (some hierarchy) data) else some (some hierarchy, data)

end Hierarchy

abbrev PWR_CNTXT_DEFAULT : Int := 0

/-- `context_t`, with what its creation sets. -/
structure CntxtRecord (η : Type) where
  type : Int
  role : PwrRole
  name : Option String
  hierarchy : Option η := none
  deriving DecidableEq, Repr

/-- The steps of a creation that the library's own data does not decide. -/
inductive CreationStep where
  | global_init | context | hintnames | ipc | opaque_map
  deriving DecidableEq, Repr

/-- The arguments of `PWR_CntxtInit`, the step that fails if one does, what the plugin
finds of the system, the address of the new record and the numbers drawn for its key. -/
structure Creation (ι : Type) where
  type : Int := PWR_CNTXT_DEFAULT
  role : PwrRole
  name : Option String
  refused : Option CreationStep := none
  system : ι
  address : Nat
  draws : List UInt32
  env : HintEnv := {}

inductive CntxtCall (ι : Type) where
  | PWR_CntxtInit (c : Creation ι)
  | PWR_CntxtDestroy (handle : UInt64)

/-- The globals that the contexts of a process share, with the contexts that were returned
and not deleted yet, by their addresses. -/
structure Contexts (μ η : Type) where
  opaque_map : OpaqueMap Nat := {}
  context_name_map : HashTable String Nat := ∅
  hints : HintLog := {}
  contexts : HashTable Nat (CntxtRecord η) := ∅
  plugin_data : μ

namespace Contexts

variable {μ η ι : Type} (plugin : Plugin μ η ι)

def del_context (address : Nat) (context : CntxtRecord η) (s : Contexts μ η) : Contexts μ η :=
  let key := (s.opaque_map.refs address).key
  { hints := app_hint_term s.hints
    opaque_map := if key ≠ 0 then (opaque_map_remove s.opaque_map key).2 else s.opaque_map
    context_name_map :=
      match context.name with
      | none => s.context_name_map
      | some name => s.context_name_map.erase name
    plugin_data := del_hierarchy plugin context.hierarchy s.plugin_data
    contexts := s.contexts.erase address }

/-- The address of the new context, if there is one. -/
def new_context (c : Creation ι) (s : Contexts μ η) : Option (Option Nat × Contexts μ η) :=
  if c.refused = some .context then some (none, s)
  else
    -- `g_new0` leaves a header without a key
    let s := { s with opaque_map.refs := Function.update s.opaque_map.refs c.address {} }
    let context : CntxtRecord η := { type := c.type, role := c.role, name := c.name }
    match c.name with
    | none => some (none, s.del_context plugin c.address context)
    | some name =>
      if c.refused = some .hintnames then some (none, s.del_context plugin c.address context)
      else
        match new_hierarchy plugin c.system s.plugin_data with
        | none => none
        | some (none, plugin_data) => some (none, { s with plugin_data }.del_context plugin c.address context)
        | some (some hierarchy, plugin_data) =>
          let s := { s with plugin_data }
          let context := { context with hierarchy := some hierarchy }
          if c.refused = some .ipc then some (none, s.del_context plugin c.address context)
          else
            let s := { s with context_name_map := s.context_name_map.insert name c.address }
            if c.refused = some .opaque_map then some (none, s.del_context plugin c.address context)
            else
              match opaque_map_insert .CONTEXT c.address c.draws s.opaque_map with
              | some (_, [], opaque_map) =>
                some (some c.address, { s with opaque_map, hints := app_hint_init c.env s.hints,
                                               contexts := s.contexts.insert c.address context })
              | _ => none

/-- The status with the handle that is stored. -/
def PWR_CntxtInit (c : Creation ι) (s : Contexts μ η) : Option ((Int × Option UInt64) × Contexts μ η) :=
  if c.refused = some .global_init then some ((PWR_RET_FAILURE, none), s)
  else if c.type ≠ PWR_CNTXT_DEFAULT then some ((PWR_RET_NOT_IMPLEMENTED, none), s)
  else if c.role ≠ .RM ∧ c.role ≠ .APP then some ((PWR_RET_NOT_IMPLEMENTED, none), s)
  else
    match s.new_context plugin c with
    | none => none
    | some (none, s) => some ((PWR_RET_FAILURE, none), s)
    | some (some ctx_ptr, s) =>
      let key := (s.opaque_map.refs ctx_ptr).key
      some ((PWR_RET_SUCCESS, some (OPAQUE_GENERATE key key)), s)

/-- Nothing is returned where the table leads to memory that was freed. -/
def PWR_CntxtDestroy (handle : UInt64) (s : Contexts μ η) : Option ((Int × Option UInt64) × Contexts μ η) :=
  if OPAQUE_GET_CONTEXT_KEY handle ≠ OPAQUE_GET_DATA_KEY handle then some ((PWR_RET_FAILURE, none), s)
  else
    match opaque_map_lookup s.opaque_map (OPAQUE_GET_DATA_KEY handle) with
    | none => some ((PWR_RET_FAILURE, none), s)
    | some ctx_ptr =>
      match s.contexts.lookup ctx_ptr with
      | none => none
      | some context =>
        if (s.opaque_map.refs ctx_ptr).type ≠ .CONTEXT then some ((PWR_RET_FAILURE, none), s)
        else some ((PWR_RET_SUCCESS, none), s.del_context plugin ctx_ptr context)

def perform : CntxtCall ι → Contexts μ η → Option ((Int × Option UInt64) × Contexts μ η)
  | .PWR_CntxtInit c => PWR_CntxtInit plugin c
  | .PWR_CntxtDestroy handle => PWR_CntxtDestroy plugin handle

/-- A new record lies at an address that is not in use. -/
def Fresh (s : Contexts μ η) : CntxtCall ι → Prop
  | .PWR_CntxtInit c => s.contexts.lookup c.address = none
  | .PWR_CntxtDestroy _ => True

instance (s : Contexts μ η) : (call : CntxtCall ι) → Decidable (s.Fresh call)
  | .PWR_CntxtInit c => decidable_of_iff ((s.contexts.lookup c.address).isNone = true) Option.isNone_iff_eq_none
  | .PWR_CntxtDestroy _ => .isTrue trivial

/-- A step of a run. -/
def ContextStep (s : Contexts μ η) (step : CntxtCall ι × Int × Option UInt64) (s' : Contexts μ η) : Prop :=
  s.Fresh step.1 ∧ s.perform plugin step.1 = some (step.2, s')

variable {plugin : Plugin μ η ι} {s s' : Contexts μ η} {c : Creation ι}

/-- The handle leads to a context. -/
def Destroys (s : Contexts μ η) (handle : UInt64) : Prop :=
  OPAQUE_GET_CONTEXT_KEY handle = OPAQUE_GET_DATA_KEY handle ∧
    (opaque_map_lookup_type s.opaque_map (OPAQUE_GET_DATA_KEY handle) .CONTEXT).isSome = true

instance (s : Contexts μ η) (handle : UInt64) : Decidable (s.Destroys handle) := inferInstanceAs (Decidable (_ ∧ _))

/-- The number of contexts that are alive. -/
def live (s : Contexts μ η) : Nat := Multiset.card (values s.contexts)

theorem mem_contexts_of_live {address : Nat} {context : CntxtRecord η}
    (hmem : s.contexts.lookup address = some context) : s.live ≠ 0 := by
  rw [live, values_eq_cons_erase hmem, Multiset.card_cons]
  exact Nat.succ_ne_zero _

/-- The creation gets as far as to allocate its context. -/
structure Begins (c : Creation ι) : Prop where
  type : c.type = PWR_CNTXT_DEFAULT
  role : c.role = .RM ∨ c.role = .APP
  global_init : c.refused ≠ some .global_init
  context : c.refused ≠ some .context

/-- The creation gets as far as to build its hierarchy, once it has begun. -/
def PastNames (c : Creation ι) : Prop := c.name ≠ none ∧ c.refused ≠ some .hintnames

/-- The creation fails when its context is allocated already. -/
def Abandons (plugin : Plugin μ η ι) (s : Contexts μ η) : CntxtCall ι → Prop
  | .PWR_CntxtInit c =>
    Begins c ∧ (c.name = none ∨ c.refused ≠ none ∨
      ((new_hierarchy plugin c.system s.plugin_data).any fun built => built.1.isNone) = true)
  | .PWR_CntxtDestroy _ => False

instance (c : Creation ι) : Decidable (Begins c) :=
  decidable_of_iff (c.type = PWR_CNTXT_DEFAULT ∧ (c.role = .RM ∨ c.role = .APP) ∧
      c.refused ≠ some .global_init ∧ c.refused ≠ some .context)
    ⟨fun h => ⟨h.1, h.2.1, h.2.2.1, h.2.2.2⟩, fun h => ⟨h.type, h.role, h.global_init, h.context⟩⟩

instance (c : Creation ι) : Decidable (PastNames c) := inferInstanceAs (Decidable (_ ∧ _))

instance (s : Contexts μ η) : (call : CntxtCall ι) → Decidable (Abandons plugin s call)
  | .PWR_CntxtInit _ => inferInstanceAs (Decidable (_ ∧ _))
  | .PWR_CntxtDestroy _ => .isFalse id

/-- The state in which an abandoned creation deletes its context. -/
def allocated (s : Contexts μ η) (address : Nat) (names : HashTable String Nat) (data : μ) : Contexts μ η :=
  { s with opaque_map.refs := Function.update s.opaque_map.refs address {},
           context_name_map := names, plugin_data := data }

/-- What the context holds of the hierarchy when it is deleted, with the plugin's data. -/
def BuiltUpTo (plugin : Plugin μ η ι) (s : Contexts μ η) (c : Creation ι) (hierarchy : Option η)
    (data : μ) : Prop :=
  (hierarchy = none ∧ data = s.plugin_data) ∨
    PastNames c ∧ new_hierarchy plugin c.system s.plugin_data = some (hierarchy, data)

theorem new_context_cases {result : Option Nat} (h : s.new_context plugin c = some (result, s')) :
    (result = none ∧ c.refused = some .context ∧ s' = s) ∨
    (result = none ∧ c.refused ≠ some .context ∧
      (c.name = none ∨ c.refused ≠ none ∨
        ((new_hierarchy plugin c.system s.plugin_data).any fun built => built.1.isNone) = true) ∧
      ∃ names data context, BuiltUpTo plugin s c context.hierarchy data ∧
        s' = (s.allocated c.address names data).del_context plugin c.address context) ∨
    (result = some c.address ∧ (c.refused = none ∨ c.refused = some .global_init) ∧
      PastNames c ∧ ∃ name hierarchy data key opaque_map, c.name = some name ∧
        new_hierarchy plugin c.system s.plugin_data = some (some hierarchy, data) ∧
        opaque_map_insert .CONTEXT c.address c.draws (s.allocated c.address s.context_name_map data).opaque_map =
          some (key, [], opaque_map) ∧
        s' = { opaque_map, context_name_map := s.context_name_map.insert name c.address,
               hints := app_hint_init c.env s.hints, plugin_data := data,
               contexts := s.contexts.insert c.address ⟨c.type, c.role, c.name, some hierarchy⟩ }) := by
  unfold new_context at h
  by_cases hcontext : c.refused = some .context
  · rw [if_pos hcontext] at h
    obtain ⟨rfl, rfl⟩ : none = result ∧ s = s' := by simpa using h
    exact Or.inl ⟨rfl, hcontext, rfl⟩
  rw [if_neg hcontext] at h
  refine Or.inr ?_
  cases hname : c.name with
  | none =>
    simp only [hname, Option.some.injEq, Prod.mk.injEq] at h
    obtain ⟨rfl, rfl⟩ := h
    exact Or.inl ⟨rfl, hcontext, Or.inl rfl, _, _, _, Or.inl ⟨rfl, rfl⟩, rfl⟩
  | some name =>
    simp only [hname] at h
    by_cases hhintnames : c.refused = some .hintnames
    · simp only [if_pos hhintnames, Option.some.injEq, Prod.mk.injEq] at h
      obtain ⟨rfl, rfl⟩ := h
      refine Or.inl ⟨rfl, hcontext, Or.inr (Or.inl ?_), _, _, _, Or.inl ⟨rfl, rfl⟩, rfl⟩
      rw [hhintnames]
      exact Option.some_ne_none _
    have hpast : PastNames c := ⟨by rw [hname]; exact Option.some_ne_none name, hhintnames⟩
    simp only [if_neg hhintnames] at h
    cases hbuilt : new_hierarchy plugin c.system s.plugin_data with
    | none =>
      rw [hbuilt] at h
      cases h
    | some built =>
      obtain ⟨hierarchy, data⟩ := built
      rw [hbuilt] at h
      cases hierarchy with
      | none =>
        simp only [Option.some.injEq, Prod.mk.injEq] at h
        obtain ⟨rfl, rfl⟩ := h
        exact Or.inl ⟨rfl, hcontext, Or.inr (Or.inr rfl), _, _, _, Or.inr ⟨hpast, hbuilt⟩, rfl⟩
      | some hierarchy =>
        simp only at h
        by_cases hipc : c.refused = some .ipc
        · simp only [if_pos hipc, Option.some.injEq, Prod.mk.injEq] at h
          obtain ⟨rfl, rfl⟩ := h
          refine Or.inl ⟨rfl, hcontext, Or.inr (Or.inl ?_), _, _, _, Or.inr ⟨hpast, hbuilt⟩, rfl⟩
          rw [hipc]
          exact Option.some_ne_none _
        simp only [if_neg hipc] at h
        by_cases hmap : c.refused = some .opaque_map
        · simp only [if_pos hmap, Option.some.injEq, Prod.mk.injEq] at h
          obtain ⟨rfl, rfl⟩ := h
          refine Or.inl ⟨rfl, hcontext, Or.inr (Or.inl ?_), _, _, _, Or.inr ⟨hpast, hbuilt⟩, rfl⟩
          rw [hmap]
          exact Option.some_ne_none _
        simp only [if_neg hmap] at h
        split at h
        · next key map hinsert =>
          obtain ⟨rfl, rfl⟩ := Prod.mk.inj (Option.some.inj h)
          refine Or.inr ⟨rfl, ?_, hpast, name, hierarchy, data, key, map, rfl, rfl, hinsert, rfl⟩
          cases hrefused : c.refused with
          | none => exact Or.inl rfl
          | some step => cases step <;> simp_all
        · cases h

/-- What a call that destroys a context does. -/
theorem PWR_CntxtDestroy_cases {handle : UInt64} {reply : Int × Option UInt64}
    (h : PWR_CntxtDestroy plugin handle s = some (reply, s')) :
    (reply.1 ≠ PWR_RET_SUCCESS ∧ s' = s) ∨
    (reply.1 = PWR_RET_SUCCESS ∧ s.Destroys handle ∧
      ∃ address context, s.contexts.lookup address = some context ∧ s' = s.del_context plugin address context) := by
  rw [PWR_CntxtDestroy] at h
  split at h
  · obtain ⟨rfl, rfl⟩ := Prod.mk.inj (Option.some.inj h)
    exact Or.inl ⟨by decide, rfl⟩
  · next hkeys =>
    split at h
    · obtain ⟨rfl, rfl⟩ := Prod.mk.inj (Option.some.inj h)
      exact Or.inl ⟨by decide, rfl⟩
    · next ctx_ptr hfound =>
      split at h
      · cases h
      · next context hcontext =>
        split at h
        · obtain ⟨rfl, rfl⟩ := Prod.mk.inj (Option.some.inj h)
          exact Or.inl ⟨by decide, rfl⟩
        · next htype =>
          obtain ⟨rfl, rfl⟩ := Prod.mk.inj (Option.some.inj h)
          refine Or.inr ⟨rfl, ⟨not_not.mp hkeys, ?_⟩, ctx_ptr, context, hcontext, rfl⟩
          simp [opaque_map_lookup_type, hfound, not_not.mp htype]

/-- What a call leaves behind: it is refused, it gives up a context that it has allocated,
it adds a context or it deletes one. -/
theorem perform_cases {call : CntxtCall ι} {reply : Int × Option UInt64}
    (h : s.perform plugin call = some (reply, s')) :
    (reply.1 ≠ PWR_RET_SUCCESS ∧ ¬Abandons plugin s call ∧ s' = s) ∨
    (reply.1 ≠ PWR_RET_SUCCESS ∧ Abandons plugin s call ∧
      ∃ c names data context, call = .PWR_CntxtInit c ∧ BuiltUpTo plugin s c context.hierarchy data ∧
        s' = (s.allocated c.address names data).del_context plugin c.address context) ∨
    (reply.1 = PWR_RET_SUCCESS ∧ ¬Abandons plugin s call ∧
      ∃ c hierarchy data context, call = .PWR_CntxtInit c ∧ Begins c ∧ PastNames c ∧
        new_hierarchy plugin c.system s.plugin_data = some (some hierarchy, data) ∧
        context.hierarchy = some hierarchy ∧ s'.plugin_data = data ∧
        s'.hints = app_hint_init c.env s.hints ∧ s'.contexts = s.contexts.insert c.address context) ∨
    (reply.1 = PWR_RET_SUCCESS ∧ ¬Abandons plugin s call ∧
      ∃ handle address context, call = .PWR_CntxtDestroy handle ∧ s.Destroys handle ∧
        s.contexts.lookup address = some context ∧
        s' = s.del_context plugin address context) := by
  cases call with
  | PWR_CntxtInit c =>
    simp only [perform, PWR_CntxtInit] at h
    by_cases hglobal : c.refused = some .global_init
    · rw [if_pos hglobal] at h
      obtain ⟨rfl, rfl⟩ := Prod.mk.inj (Option.some.inj h)
      exact Or.inl ⟨by decide, fun habandons => habandons.1.global_init hglobal, rfl⟩
    rw [if_neg hglobal] at h
    by_cases htype : c.type ≠ PWR_CNTXT_DEFAULT
    · rw [if_pos htype] at h
      obtain ⟨rfl, rfl⟩ := Prod.mk.inj (Option.some.inj h)
      exact Or.inl ⟨by decide, fun habandons => htype habandons.1.type, rfl⟩
    rw [if_neg htype] at h
    by_cases hrole : c.role ≠ .RM ∧ c.role ≠ .APP
    · rw [if_pos hrole] at h
      obtain ⟨rfl, rfl⟩ := Prod.mk.inj (Option.some.inj h)
      refine Or.inl ⟨by decide, fun habandons => ?_, rfl⟩
      exact habandons.1.role.elim hrole.1 hrole.2
    rw [if_neg hrole] at h
    have hsupported : c.type = PWR_CNTXT_DEFAULT ∧ (c.role = .RM ∨ c.role = .APP) := by
      refine ⟨not_not.mp htype, ?_⟩
      by_contra hneither
      exact hrole (not_or.mp hneither)
    split at h
    · cases h
    · next s₁ hnew =>
      obtain ⟨rfl, rfl⟩ := Prod.mk.inj (Option.some.inj h)
      obtain ⟨_, hcontext, rfl⟩ | ⟨_, hcontext, hfails, names, data, context, hbuilt, hs'⟩ |
        ⟨hresult, _⟩ :=
        new_context_cases hnew
      · exact Or.inl ⟨by decide, fun habandons => habandons.1.context hcontext, rfl⟩
      · exact Or.inr (Or.inl ⟨by decide, ⟨⟨hsupported.1, hsupported.2, hglobal, hcontext⟩, hfails⟩,
          c, names, data, context, rfl, hbuilt, hs'⟩)
      · cases hresult
    · next ctx_ptr s₁ hnew =>
      obtain ⟨rfl, rfl⟩ := Prod.mk.inj (Option.some.inj h)
      obtain ⟨hresult, _⟩ | ⟨hresult, _⟩ |
        ⟨_, hrefused, hpast, name, hierarchy, data, key, map, hname, hbuilt, _, rfl⟩ :=
        new_context_cases hnew
      · cases hresult
      · cases hresult
      · have hnone := hrefused.resolve_right hglobal
        have hbegins : Begins c :=
          ⟨hsupported.1, hsupported.2, hglobal, by rw [hnone]; exact (Option.some_ne_none _).symm⟩
        refine Or.inr (Or.inr (Or.inl
          ⟨rfl, ?_, c, hierarchy, data, _, rfl, hbegins, hpast, hbuilt, rfl, rfl, rfl, rfl⟩))
        rintro ⟨_, hfails⟩
        simp [hname, hnone, hbuilt] at hfails
  | PWR_CntxtDestroy handle =>
    have hnot : ¬Abandons plugin s (.PWR_CntxtDestroy handle) := id
    obtain ⟨hfails, rfl⟩ | ⟨hsuccess, hdestroys, address, context, hcontext, rfl⟩ := PWR_CntxtDestroy_cases h
    · exact Or.inl ⟨hfails, hnot, rfl⟩
    · exact Or.inr (Or.inr (Or.inr ⟨hsuccess, hnot, handle, address, context, rfl, hdestroys, hcontext, rfl⟩))

theorem live_insert {address : Nat} (hfree : s.contexts.lookup address = none) (context : CntxtRecord η)
    (hs' : s'.contexts = s.contexts.insert address context) : s'.live = s.live + 1 := by
  rw [live, hs', values_insert_of_lookup_none hfree, Multiset.card_cons, live]

theorem live_erase {address : Nat} {context : CntxtRecord η} (hmem : s.contexts.lookup address = some context)
    (hs' : s'.contexts = s.contexts.erase address) : s.live = s'.live + 1 := by
  rw [live, values_eq_cons_erase hmem, Multiset.card_cons, live, hs']

/-- Deleting a context that never got a key leaves the others' handles alone. -/
theorem allocated_del_context (plugin : Plugin μ η ι) (s : Contexts μ η) {address : Nat}
    (hfree : s.contexts.lookup address = none) (names : HashTable String Nat) (data : μ) (context : CntxtRecord η) :
    let s' := (s.allocated address names data).del_context plugin address context
    s'.hints = app_hint_term s.hints ∧ s'.contexts = s.contexts ∧ s'.opaque_map.table = s.opaque_map.table ∧
      s'.opaque_map.refs = Function.update s.opaque_map.refs address {} := by
  have hkey : ¬((s.allocated address names data).opaque_map.refs address).key ≠ 0 := by simp [allocated]
  refine ⟨rfl, ?_, ?_, ?_⟩
  · refine Finmap.ext_lookup fun other => ?_
    rw [del_context, lookup_erase_eq_ite]
    split
    · next hother => rw [hother, hfree]
    · rfl
  · rw [del_context, if_neg hkey, allocated]
  · rw [del_context, if_neg hkey, allocated]

end Contexts

end pwrapi
