import Mathlib.Tactic.Common
import PowerApi.Types
import PowerApi.Lib.Agreement

namespace pwrapi

/-- The structures that begin with an `obj_t`, which are the types that `new_node` and its like
give to objects. -/
inductive ObjKind where
  | node | socket | core | pplane | mem | ht
  deriving DecidableEq, Repr

/-- An object of the hierarchy with the objects below its node. -/
inductive ObjTree where
  | obj (kind : ObjKind) (id : Nat) (children : List ObjTree)

namespace ObjTree

def kind : ObjTree → ObjKind
  | obj kind _ _ => kind

def id : ObjTree → Nat
  | obj _ id _ => id

def children : ObjTree → List ObjTree
  | obj _ _ children => children

end ObjTree

/-- What a call that sets an attribute returns, and the objects that were set at their own
level, in order. Each was set through its operation or refused as read-only. -/
abbrev Setting := Int × List Nat

section Levels

-- `op` is the result of the object's own operation for the attribute, and `forward` what
-- `forward_attr_set_value` gives for the objects below

variable (attr : PwrAttrName) (id : Nat) (op : Int) (forward : Setting)

def node_attr_set_value : Setting :=
  match attr with
  | .OS_ID | .POWER | .ENERGY => (PWR_RET_READ_ONLY, [id])
  | _ => forward

def socket_attr_set_value : Setting :=
  match attr with
  | .OS_ID | .POWER | .ENERGY | .THROTTLED_TIME | .TEMP => (PWR_RET_READ_ONLY, [id])
  | .POWER_LIMIT_MAX => (op, [id])
  | _ => forward

def core_attr_set_value : Setting :=
  match attr with
  | .OS_ID | .TEMP => (PWR_RET_READ_ONLY, [id])
  | _ => forward

def pplane_attr_set_value : Setting :=
  match attr with
  | .OS_ID | .POWER | .ENERGY => (PWR_RET_READ_ONLY, [id])
  | _ => forward

def mem_attr_set_value : Setting :=
  match attr with
  | .OS_ID | .POWER | .ENERGY | .THROTTLED_TIME => (PWR_RET_READ_ONLY, [id])
  | .POWER_LIMIT_MAX => (op, [id])
  | _ => forward

def ht_attr_set_value : Setting :=
  match attr with
  | .OS_ID | .FREQ => (PWR_RET_READ_ONLY, [id])
  | .CSTATE_LIMIT | .FREQ_REQ | .FREQ_LIMIT_MIN | .FREQ_LIMIT_MAX | .GOV => (op, [id])
  | _ => forward

/-- The switch on the type of an object. -/
def kind_attr_set_value : ObjKind → Setting
  | .node => node_attr_set_value attr id forward
  | .socket => socket_attr_set_value attr id op forward
  | .core => core_attr_set_value attr id forward
  | .pplane => pplane_attr_set_value attr id forward
  | .mem => mem_attr_set_value attr id op forward
  | .ht => ht_attr_set_value attr id op forward

end Levels

/-- The loop's body for one child's status, on `retval` and `implemented`. -/
def accumulate (retval : Int) (implemented : Nat) (status : Int) : Int × Nat :=
  if status = PWR_RET_NOT_IMPLEMENTED then (retval, implemented)
  else
    let retval := if retval = PWR_RET_SUCCESS then status else retval
    let retval := if status ≠ retval ∧ status < PWR_RET_SUCCESS then PWR_RET_FAILURE else retval
    (retval, implemented + 1)

section Forward

variable (attr : PwrAttrName) (op : Nat → Int)

mutual

def forward_loop : Int → Nat → List ObjTree → Setting
  | retval, implemented, [] => (if implemented = 0 then PWR_RET_NOT_IMPLEMENTED else retval, [])
  | retval, implemented, child :: rest =>
    let (status, tried) := obj_set_value child
    let (retval, implemented) := accumulate retval implemented status
    let (retval, more) := forward_loop retval implemented rest
    (retval, tried ++ more)

/-- The set function of an object's type. -/
def obj_set_value : ObjTree → Setting
  | .obj kind id children =>
    kind_attr_set_value attr id (op id) (forward_loop PWR_RET_SUCCESS 0 children) kind

end

def forward_attr_set_value (children : List ObjTree) : Setting :=
  forward_loop attr op PWR_RET_SUCCESS 0 children

end Forward

open Agreement

/-- The attributes that a type refuses to set. -/
def read_only_attrs : ObjKind → List PwrAttrName
  | .node | .pplane => [.OS_ID, .POWER, .ENERGY]
  | .socket => [.OS_ID, .POWER, .ENERGY, .THROTTLED_TIME, .TEMP]
  | .core => [.OS_ID, .TEMP]
  | .mem => [.OS_ID, .POWER, .ENERGY, .THROTTLED_TIME]
  | .ht => [.OS_ID, .FREQ]

/-- The attributes that a type has an operation to set. -/
def operation_attrs : ObjKind → List PwrAttrName
  | .node | .core | .pplane => []
  | .socket | .mem => [.POWER_LIMIT_MAX]
  | .ht => [.CSTATE_LIMIT, .FREQ_REQ, .FREQ_LIMIT_MIN, .FREQ_LIMIT_MAX, .GOV]

def handles (attr : PwrAttrName) (t : ObjTree) : Prop :=
  attr ∈ read_only_attrs t.kind ∨ attr ∈ operation_attrs t.kind

instance (attr : PwrAttrName) (t : ObjTree) : Decidable (handles attr t) :=
  inferInstanceAs (Decidable (_ ∨ _))

/-- What setting the attribute at an object's own level gives. -/
def outcome (attr : PwrAttrName) (op : Nat → Int) (t : ObjTree) : Int :=
  if attr ∈ read_only_attrs t.kind then PWR_RET_READ_ONLY else op t.id

section Nearest

variable (attr : PwrAttrName)

mutual

/-- The handling object that a set reaches first on each path down. -/
def nearest : ObjTree → List ObjTree
  | .obj kind id children =>
    if handles attr (.obj kind id children) then [.obj kind id children]
    else nearest_below children

def nearest_below : List ObjTree → List ObjTree
  | [] => []
  | child :: rest => nearest child ++ nearest_below rest

end

end Nearest

/-- The statuses that count: `forward_attr_set_value` passes over the other one. -/
def verdicts (attr : PwrAttrName) (op : Nat → Int) (ts : List ObjTree) : List Int :=
  (ts.map (outcome attr op)).filter (· ≠ PWR_RET_NOT_IMPLEMENTED)

/-- One status out of many. -/
def unite (statuses : List Int) : Int :=
  if statuses = [] then PWR_RET_NOT_IMPLEMENTED
  else agreement PWR_RET_SUCCESS PWR_RET_FAILURE statuses

section Proofs

variable {attr : PwrAttrName} {op : Nat → Int}

theorem kind_attr_set_value_eq (kind : ObjKind) (id : Nat) (children : List ObjTree)
    (forward : Setting) :
    kind_attr_set_value attr id (op id) forward kind =
      if handles attr (.obj kind id children) then
        (outcome attr op (.obj kind id children), [id])
      else forward := by
  cases kind <;> cases attr <;> rfl

theorem failure_ne_success : PWR_RET_FAILURE ≠ PWR_RET_SUCCESS := by decide

theorem accumulate_not_implemented (retval : Int) (implemented : Nat) :
    accumulate retval implemented PWR_RET_NOT_IMPLEMENTED = (retval, implemented) := rfl

theorem accumulate_eq {status : Int} (hle : status ≤ 0) (hne : status ≠ PWR_RET_NOT_IMPLEMENTED)
    (retval : Int) (implemented : Nat) :
    accumulate retval implemented status =
      (agree PWR_RET_SUCCESS PWR_RET_FAILURE retval status, implemented + 1) := by
  unfold accumulate agree
  grind

@[simp] theorem verdicts_nil : verdicts attr op [] = [] := rfl

theorem verdicts_append (ts us : List ObjTree) :
    verdicts attr op (ts ++ us) = verdicts attr op ts ++ verdicts attr op us := by
  simp only [verdicts, List.map_append, List.filter_append]

theorem mem_verdicts {ts : List ObjTree} {s : Int} :
    s ∈ verdicts attr op ts ↔
      (∃ t ∈ ts, outcome attr op t = s) ∧ s ≠ PWR_RET_NOT_IMPLEMENTED := by
  simp only [verdicts, List.mem_filter, List.mem_map, decide_eq_true_eq]

/-- The status of a single object is its outcome. -/
theorem unite_verdicts_singleton (t : ObjTree) :
    unite (verdicts attr op [t]) = outcome attr op t := by
  by_cases h : outcome attr op t = PWR_RET_NOT_IMPLEMENTED
  · simp [verdicts, unite, h]
  · simp [verdicts, unite, h]

/-- A status that was united out of verdicts is a verdict itself. -/
theorem agreement_verdicts {ts : List ObjTree} (hle : ∀ t ∈ ts, outcome attr op t ≤ 0) :
    agreement PWR_RET_SUCCESS PWR_RET_FAILURE (verdicts attr op ts) ≤ 0 ∧
      agreement PWR_RET_SUCCESS PWR_RET_FAILURE (verdicts attr op ts) ≠
        PWR_RET_NOT_IMPLEMENTED := by
  rcases agreement_mem (verdicts attr op ts) with h | h | h
  · rw [h]
    decide
  · rw [h]
    decide
  · obtain ⟨⟨t, ht, heq⟩, hne⟩ := mem_verdicts.mp h
    exact ⟨heq ▸ hle t ht, hne⟩

/-- The loop's body, for a child whose status was united out of verdicts. -/
theorem accumulate_unite {ts : List ObjTree} (hle : ∀ t ∈ ts, outcome attr op t ≤ 0)
    (retval : Int) (implemented : Nat) :
    accumulate retval implemented (unite (verdicts attr op ts)) =
      if verdicts attr op ts = [] then (retval, implemented)
      else (agree PWR_RET_SUCCESS PWR_RET_FAILURE retval
        (agreement PWR_RET_SUCCESS PWR_RET_FAILURE (verdicts attr op ts)), implemented + 1) := by
  unfold unite
  split_ifs with h
  · exact accumulate_not_implemented retval implemented
  · obtain ⟨hneg, hne⟩ := agreement_verdicts hle
    exact accumulate_eq hneg hne retval implemented

mutual

theorem obj_set_value_eq : ∀ t : ObjTree, (∀ h ∈ nearest attr t, outcome attr op h ≤ 0) →
    obj_set_value attr op t =
      (unite (verdicts attr op (nearest attr t)), (nearest attr t).map ObjTree.id)
  | .obj kind id children, hle => by
    rw [obj_set_value, kind_attr_set_value_eq kind id children]
    rw [nearest] at hle ⊢
    split_ifs with h
    · rw [unite_verdicts_singleton]
      rfl
    · rw [if_neg h] at hle
      rw [forward_loop_eq children hle]
      simp only [true_and, bot_agree]
      rfl

theorem forward_loop_eq : ∀ children : List ObjTree,
    (∀ h ∈ nearest_below attr children, outcome attr op h ≤ 0) → ∀ retval implemented,
    forward_loop attr op retval implemented children =
      (if implemented = 0 ∧ verdicts attr op (nearest_below attr children) = []
       then PWR_RET_NOT_IMPLEMENTED
       else agree PWR_RET_SUCCESS PWR_RET_FAILURE retval (agreement PWR_RET_SUCCESS
         PWR_RET_FAILURE (verdicts attr op (nearest_below attr children))),
       (nearest_below attr children).map ObjTree.id)
  | [], _, retval, implemented => by
    simp [forward_loop, nearest_below]
  | child :: rest, hle, retval, implemented => by
    rw [nearest_below] at hle ⊢
    have hchild : ∀ h ∈ nearest attr child, outcome attr op h ≤ 0 :=
      fun h hh => hle h (List.mem_append_left _ hh)
    have hrest := forward_loop_eq rest fun h hh => hle h (List.mem_append_right _ hh)
    rw [forward_loop, obj_set_value_eq child hchild, verdicts_append, List.map_append]
    simp only [accumulate_unite hchild, hrest]
    split_ifs with h <;>
      simp_all [agreement_append failure_ne_success, agree_assoc failure_ne_success]

end

mutual

theorem handles_of_nearest : ∀ t : ObjTree, ∀ u ∈ nearest attr t, handles attr u
  | .obj kind id children, u, hu => by
    rw [nearest] at hu
    split_ifs at hu with h
    · exact List.mem_singleton.mp hu ▸ h
    · exact handles_of_nearest_below children u hu

theorem handles_of_nearest_below : ∀ ts : List ObjTree, ∀ u ∈ nearest_below attr ts,
    handles attr u
  | [], _, hu => absurd hu List.not_mem_nil
  | child :: rest, u, hu => by
    rw [nearest_below] at hu
    rcases List.mem_append.mp hu with hu | hu
    · exact handles_of_nearest child u hu
    · exact handles_of_nearest_below rest u hu

end

theorem nearest_of_handles {t : ObjTree} (h : handles attr t) : nearest attr t = [t] := by
  obtain ⟨kind, id, children⟩ := t
  rw [nearest, if_pos h]

theorem nearest_below_of_handles {ts : List ObjTree} (h : ∀ t ∈ ts, handles attr t) :
    nearest_below attr ts = ts := by
  induction ts with
  | nil => rfl
  | cons t ts ih =>
    rw [nearest_below, nearest_of_handles (h t List.mem_cons_self),
      ih fun u hu => h u (List.mem_cons_of_mem _ hu), List.singleton_append]

theorem forward_attr_set_value_eq {children : List ObjTree}
    (hle : ∀ u ∈ nearest_below attr children, outcome attr op u ≤ 0) :
    forward_attr_set_value attr op children =
      (unite (verdicts attr op (nearest_below attr children)),
        (nearest_below attr children).map ObjTree.id) := by
  rw [forward_attr_set_value, forward_loop_eq children hle]
  simp only [true_and, bot_agree]
  rfl

theorem obj_set_value_of_not_handles {t : ObjTree} (h : ¬ handles attr t) :
    obj_set_value attr op t = forward_attr_set_value attr op t.children := by
  obtain ⟨kind, id, children⟩ := t
  rw [obj_set_value, kind_attr_set_value_eq kind id children, if_neg h]
  rfl

/-- Forwarding through the levels is forwarding to the flat list. -/
theorem forward_nearest {children : List ObjTree}
    (hle : ∀ u ∈ nearest_below attr children, outcome attr op u ≤ 0) :
    forward_attr_set_value attr op children =
      forward_attr_set_value attr op (nearest_below attr children) := by
  have hflat : nearest_below attr (nearest_below attr children) = nearest_below attr children :=
    nearest_below_of_handles (handles_of_nearest_below children)
  rw [forward_attr_set_value_eq hle, forward_attr_set_value_eq (by rwa [hflat]), hflat]

theorem unite_eq_success {vs : List Int} (hne : vs ≠ []) (h : ∀ v ∈ vs, v = PWR_RET_SUCCESS) :
    unite vs = PWR_RET_SUCCESS := by
  rw [unite, if_neg hne, agreement_eq_bot h]

theorem unite_eq {vs : List Int} {e : Int} (he : e ∈ vs) (hneg : e < 0)
    (hle : ∀ v ∈ vs, v ≤ 0) (h : ∀ v ∈ vs, v < 0 → v = e) : unite vs = e := by
  rw [unite, if_neg (List.ne_nil_of_mem he)]
  refine agreement_eq failure_ne_success he (Int.ne_of_lt hneg) fun v hv => ?_
  rcases Int.lt_or_eq_of_le (hle v hv) with hlt | heq
  · exact .inr (h v hv hlt)
  · exact .inl heq

theorem unite_eq_failure {vs : List Int} {d e : Int} (hd : d ∈ vs) (he : e ∈ vs) (hdneg : d < 0)
    (heneg : e < 0) (hne : d ≠ e) : unite vs = PWR_RET_FAILURE := by
  rw [unite, if_neg (List.ne_nil_of_mem he)]
  exact agreement_eq_top failure_ne_success hd he (Int.ne_of_lt hdneg) (Int.ne_of_lt heneg) hne

end Proofs

/-- Setting an attribute on an object that does not handle it sets it once on each nearest
object below that does. The status is united out of their outcomes, of which
`PWR_RET_NOT_IMPLEMENTED` does not count, and the levels between do not show. -/
theorem set_value_nearest (attr : PwrAttrName) (op : Nat → Int) (t : ObjTree)
    (h : ¬ handles attr t)
    (hle : ∀ u ∈ nearest_below attr t.children, outcome attr op u ≤ 0) :
    let below := nearest_below attr t.children
    let counted := verdicts attr op below
    let (status, tried) := obj_set_value attr op t
    tried = below.map ObjTree.id ∧
    (counted = [] → status = PWR_RET_NOT_IMPLEMENTED) ∧
    (counted ≠ [] → (∀ v ∈ counted, v = PWR_RET_SUCCESS) → status = PWR_RET_SUCCESS) ∧
    (∀ e ∈ counted, e < 0 → (∀ v ∈ counted, v < 0 → v = e) → status = e) ∧
    (∀ d ∈ counted, ∀ e ∈ counted, d < 0 → e < 0 → d ≠ e → status = PWR_RET_FAILURE) ∧
    (status, tried) = forward_attr_set_value attr op below := by
  have hcounted : ∀ v ∈ verdicts attr op (nearest_below attr t.children), v ≤ 0 := by
    intro v hv
    obtain ⟨⟨u, hu, heq⟩, -⟩ := mem_verdicts.mp hv
    exact heq ▸ hle u hu
  intro below counted
  rw [obj_set_value_of_not_handles h, ← forward_nearest hle, forward_attr_set_value_eq hle]
  refine ⟨rfl, fun hnil => ?_, unite_eq_success, fun e he hneg => unite_eq he hneg hcounted,
    fun d hd e he hdneg heneg => unite_eq_failure hd he hdneg heneg, rfl⟩
  rw [unite, if_pos hnil]

/-- A node over two sockets, of which one is limited and the other refuses. -/
theorem set_value_nearest_two_sockets :
    let op := fun id => if id = 3 then PWR_RET_OP_NO_PERM else PWR_RET_SUCCESS
    let t := ObjTree.obj .node 0
      [.obj .core 1 [.obj .socket 2 [], .obj .socket 3 []], .obj .mem 4 []]
    obj_set_value .POWER_LIMIT_MAX op t = (PWR_RET_OP_NO_PERM, [2, 3, 4]) ∧
      (obj_set_value .POWER_LIMIT_MAX op t).2 = [2, 3, 4] := by
  intro op t
  refine ⟨by decide, ?_⟩
  exact (set_value_nearest .POWER_LIMIT_MAX op t (by decide) (by decide)).1

/-- A handler that fails with `PWR_RET_NOT_IMPLEMENTED` does not decide the status, even where
no other fails. -/
theorem not_implemented_is_passed_over :
    ¬ ∀ (attr : PwrAttrName) (op : Nat → Int) (t : ObjTree), ¬ handles attr t →
      (∀ u ∈ nearest_below attr t.children, outcome attr op u ≤ 0) →
      ∀ e < 0, (∃ u ∈ nearest_below attr t.children, outcome attr op u = e) →
      (∀ u ∈ nearest_below attr t.children, outcome attr op u < 0 → outcome attr op u = e) →
      (obj_set_value attr op t).1 = e := by
  intro h
  have hbad := h .POWER_LIMIT_MAX (fun id => if id = 2 then PWR_RET_NOT_IMPLEMENTED else 0)
    (.obj .node 0 [.obj .socket 1 [], .obj .socket 2 []]) (by decide) (by decide)
    PWR_RET_NOT_IMPLEMENTED (by decide) 
    ⟨.obj .socket 2 [], List.mem_cons_of_mem _ List.mem_cons_self, by decide⟩ (by decide)
  exact absurd hbad (by decide)

end pwrapi
