import PowerApi.Api.AttrBatches
import PowerApi.Lib.Loops

open Loops

namespace pwrapi

/-- An element of a batch: what is to be got or set, and where in the caller's arrays. -/
structure Element where
  object : UInt64
  attr : PwrAttrName
  index : ℕ
  deriving DecidableEq, Repr

/-- The get or set of an element at its place in the caller's arrays. -/
def Element.call (ts : Bool) (e : Element) : AttrCall :=
  ⟨e.object, e.attr, 8 * e.index, if ts then some (e.index : Int) else none⟩

section Attempts

variable {σ : Type} (op : AttrCall → σ → Int × σ)

/-- Gets or sets made one after the other, with their return codes. -/
def perform_all : List AttrCall → σ → List (AttrCall × Int) × σ
  | [], world => ([], world)
  | call :: rest, world =>
    let (errcode, next) := op call world
    let (done, last) := perform_all rest next
    ((call, errcode) :: done, last)

/-- The entries of the attempts that fail, with the index each is pushed with. -/
def failures (attempts : List (AttrCall × Int)) (codes : List Int) : List AttrAccessError :=
  (attempts.zip codes).filterMap fun ((call, index), errcode) =>
    if errcode = PWR_RET_SUCCESS then none else some ⟨call.object, call.attr, index, errcode⟩

/-- What a caller is promised of a batch: every element is got or set in order at its place, the
call succeeds just when all of them do, and the status has exactly those that fail. -/
structure Batch.Reports (ts : Bool) (stat : Option Nat) (elements : List Element) (world : σ) (b : Batch σ) :
    Prop where
  attempts : (b.calls, b.world) = perform_all op (elements.map (Element.call ts)) world
  success : b.retval = PWR_RET_SUCCESS ↔ ∀ c ∈ b.calls, c.2 = PWR_RET_SUCCESS
  queue : ∀ a, stat = some a →
    b.queues a = failures (elements.map fun e => (e.call ts, (e.index : Int))) (b.calls.map Prod.snd)

/-- The loop over the given attempts. -/
def Batch.attempts (stat : Option Nat) (l : List (AttrCall × Int)) (b : Batch σ) : Batch σ :=
  l.foldl (fun b x => b.attempt op stat x.1 x.2) b

variable {op} {stat : Option Nat} {l : List (AttrCall × Int)} {b : Batch σ}

theorem perform_all_calls (calls : List AttrCall) (world : σ) :
    (perform_all op calls world).1.map Prod.fst = calls := by
  induction calls generalizing world with
  | nil => rfl
  | cons call rest ih =>
    rw [perform_all, List.map_cons]
    exact congrArg _ (ih _)

namespace Batch

section One

variable {call : AttrCall} {index : Int}

@[simp] theorem push_status_error_calls {error : AttrAccessError} :
    (b.push_status_error stat error).calls = b.calls := by
  cases stat <;> rfl

@[simp] theorem push_status_error_world {error : AttrAccessError} :
    (b.push_status_error stat error).world = b.world := by
  cases stat <;> rfl

theorem push_status_error_queue {error : AttrAccessError} {a : Nat} (ha : stat = some a) :
    (b.push_status_error stat error).queues a = b.queues a ++ [error] := by
  rw [ha]
  exact Function.update_self _ _ _

theorem attempt_success (h : (op call b.world).1 = PWR_RET_SUCCESS) :
    b.attempt op stat call index =
      { b with world := (op call b.world).2, calls := b.calls ++ [(call, (op call b.world).1)] } :=
  if_neg (not_not.mpr h)

theorem attempt_failure (h : (op call b.world).1 ≠ PWR_RET_SUCCESS) :
    b.attempt op stat call index =
      ({ b with world := (op call b.world).2, calls := b.calls ++ [(call, (op call b.world).1)] } : Batch σ).failed
        stat ⟨call.object, call.attr, index, (op call b.world).1⟩ :=
  if_pos h

@[simp] theorem attempt_calls :
    (b.attempt op stat call index).calls = b.calls ++ [(call, (op call b.world).1)] := by
  by_cases h : (op call b.world).1 = PWR_RET_SUCCESS
  · rw [attempt_success h]
  · rw [attempt_failure h, failed, push_status_error_calls]

@[simp] theorem attempt_world : (b.attempt op stat call index).world = (op call b.world).2 := by
  by_cases h : (op call b.world).1 = PWR_RET_SUCCESS
  · rw [attempt_success h]
  · rw [attempt_failure h, failed, push_status_error_world]

theorem attempt_retval : (b.attempt op stat call index).retval = PWR_RET_SUCCESS ↔
    b.retval = PWR_RET_SUCCESS ∧ (op call b.world).1 = PWR_RET_SUCCESS := by
  by_cases h : (op call b.world).1 = PWR_RET_SUCCESS
  · simp [attempt_success h, h]
  · simp [attempt_failure h, failed, h]

theorem attempt_queue {a : Nat} (ha : stat = some a) : (b.attempt op stat call index).queues a =
    b.queues a ++ failures [(call, index)] [(op call b.world).1] := by
  by_cases h : (op call b.world).1 = PWR_RET_SUCCESS
  · simp [attempt_success h, failures, h]
  · rw [attempt_failure h, failed, push_status_error_queue ha]
    simp [failures, h]

end One

theorem attempts_cons (x : AttrCall × Int) :
    b.attempts op stat (x :: l) = (b.attempt op stat x.1 x.2).attempts op stat l := rfl

/-- What a loop of attempts leaves is what the same gets or sets leave without the loop. -/
theorem attempts_calls :
    (b.attempts op stat l).calls = b.calls ++ (perform_all op (l.map Prod.fst) b.world).1 ∧
      (b.attempts op stat l).world = (perform_all op (l.map Prod.fst) b.world).2 := by
  induction l generalizing b with
  | nil => exact ⟨(List.append_nil _).symm, rfl⟩
  | cons x rest ih =>
    obtain ⟨hcalls, hworld⟩ := ih (b := b.attempt op stat x.1 x.2)
    rw [attempts_cons, hcalls, hworld, attempt_calls, attempt_world, List.append_assoc]
    exact ⟨rfl, rfl⟩

theorem attempts_retval : (b.attempts op stat l).retval = PWR_RET_SUCCESS ↔ b.retval = PWR_RET_SUCCESS ∧
    ∀ c ∈ (perform_all op (l.map Prod.fst) b.world).1, c.2 = PWR_RET_SUCCESS := by
  induction l generalizing b with
  | nil => simp [attempts, perform_all]
  | cons x rest ih =>
    rw [attempts_cons, ih, attempt_retval, attempt_world, and_assoc, List.map_cons, perform_all,
      List.forall_mem_cons]

theorem failures_cons (x : AttrCall × Int) (rest : List (AttrCall × Int)) (code : Int) (codes : List Int) :
    failures (x :: rest) (code :: codes) = failures [x] [code] ++ failures rest codes := by
  simp only [failures, List.zip_cons_cons, List.filterMap_cons, List.zip_nil_left, List.filterMap_nil]
  split <;> rfl

theorem attempts_queue {a : Nat} (ha : stat = some a) : (b.attempts op stat l).queues a = b.queues a ++
    failures l ((perform_all op (l.map Prod.fst) b.world).1.map Prod.snd) := by
  induction l generalizing b with
  | nil => simp [attempts, failures]
  | cons x rest ih =>
    rw [attempts_cons, ih, attempt_queue ha, attempt_world, List.map_cons, perform_all, List.map_cons,
      failures_cons x rest,
      List.append_assoc]

/-- A batch that begins with its status cleared keeps the promise just when each attempt is at its
element's place, and the failing ones are pushed with their elements' indices. -/
theorem attempts_reports_iff {ts : Bool} {elements : List Element} {world : σ} (hcalls : b.calls = [])
    (hworld : b.world = world) (hretval : b.retval = PWR_RET_SUCCESS)
    (hqueue : ∀ a, stat = some a → b.queues a = []) :
    (b.attempts op stat l).Reports op ts stat elements world ↔
      l.map Prod.fst = elements.map (Element.call ts) ∧
        ∀ a, stat = some a → failures l ((perform_all op (l.map Prod.fst) world).1.map Prod.snd) =
          failures (elements.map fun e => (e.call ts, (e.index : Int)))
            ((perform_all op (l.map Prod.fst) world).1.map Prod.snd) := by
  subst hworld
  obtain ⟨hdone, hworld⟩ : (b.attempts op stat l).calls = _ ∧ (b.attempts op stat l).world = _ := attempts_calls
  rw [hcalls, List.nil_append] at hdone
  have hcodes : ∀ a, stat = some a → (b.attempts op stat l).queues a =
      failures l ((perform_all op (l.map Prod.fst) b.world).1.map Prod.snd) := by
    intro a ha
    rw [attempts_queue ha, hqueue a ha, List.nil_append]
  constructor
  · rintro ⟨hattempts, -, hfailures⟩
    refine ⟨?_, ?_⟩
    · have hfirst := congrArg (fun r => r.1.map Prod.fst) hattempts
      simp only [hdone, perform_all_calls] at hfirst
      exact hfirst
    · intro a ha
      rw [← hcodes a ha, hfailures a ha, hdone]
  · rintro ⟨hsame, hfailures⟩
    refine ⟨?_, ?_, ?_⟩
    · rw [hdone, hworld, hsame]
    · rw [attempts_retval, hdone, and_iff_right hretval]
    · intro a ha
      rw [hcodes a ha, hfailures a ha, hdone]

end Batch

end Attempts

/-- The batch calls, with arrays that are not `NULL`. -/
inductive AttrBatch where
  | ObjAttrGetValues (object : UInt64) (count : ℕ) (attrs : ℕ → PwrAttrName) (ts : Bool)
  | ObjAttrSetValues (object : UInt64) (count : ℕ) (attrs : ℕ → PwrAttrName)
  | GrpAttrGetValue (group : UInt64) (attr : PwrAttrName) (ts : Bool)
  | GrpAttrGetValues (group : UInt64) (count : ℕ) (attrs : ℕ → PwrAttrName) (ts : Bool)
  | GrpAttrSetValues (group : UInt64) (count : ℕ) (attrs : ℕ → PwrAttrName)

/-- The group has just the objects with the given handles. -/
def Library.HasObjects (lib : Library) (group : UInt64) (objects : List UInt64) : Prop :=
  ∃ grp g, lib.find_group_by_opaque group = some (.ok grp) ∧ lib.groups.lookup grp = some g ∧
    (∀ o ∈ g.list, o ∈ lib.objects) ∧
    objects = g.list.map fun o => OPAQUE_GENERATE (OPAQUE_GET_CONTEXT_KEY group) (lib.opaque_key o)

namespace AttrBatch

/-- The object or the group. -/
def target : AttrBatch → UInt64
  | ObjAttrGetValues target _ _ _ | ObjAttrSetValues target _ _ | GrpAttrGetValue target _ _
  | GrpAttrGetValues target _ _ _ | GrpAttrSetValues target _ _ => target

/-- Whether the caller wants times. -/
def ts : AttrBatch → Bool
  | ObjAttrGetValues _ _ _ ts | GrpAttrGetValue _ _ ts | GrpAttrGetValues _ _ _ ts => ts
  | ObjAttrSetValues _ _ _ | GrpAttrSetValues _ _ _ => false

/-- The objects that the batch is about are those of its group. -/
def OnObjects (lib : Library) (objects : List UInt64) : AttrBatch → Prop
  | ObjAttrGetValues _ _ _ _ | ObjAttrSetValues _ _ _ => True
  | GrpAttrGetValue group _ _ | GrpAttrGetValues group _ _ _ | GrpAttrSetValues group _ _ =>
    lib.HasObjects group objects

/-- The elements in order. The values of an object's attributes follow each other, and where an
attribute of several objects is set, it is set to the one value it has in the array. -/
def elements (objects : List UInt64) : AttrBatch → List Element
  | ObjAttrGetValues object count attrs _ | ObjAttrSetValues object count attrs =>
    (List.range count).map fun i => ⟨object, attrs i, i⟩
  | GrpAttrGetValue _ attr _ => objects.zipIdx.map fun o => ⟨o.1, attr, o.2⟩
  | GrpAttrGetValues _ count attrs _ =>
    objects.zipIdx.flatMap fun o => (List.range count).map fun j => ⟨o.1, attrs j, o.2 * count + j⟩
  | GrpAttrSetValues _ count attrs => objects.flatMap fun o => (List.range count).map fun j => ⟨o, attrs j, j⟩

section Perform

variable {σ : Type} (get set : AttrCall → σ → Int × σ)

def op : AttrBatch → AttrCall → σ → Int × σ
  | ObjAttrGetValues _ _ _ _ | GrpAttrGetValue _ _ _ | GrpAttrGetValues _ _ _ _ => get
  | ObjAttrSetValues _ _ _ | GrpAttrSetValues _ _ _ => set

def perform (lib : Library) (status : UInt64) (b : Batch σ) : AttrBatch → Option (Batch σ)
  | ObjAttrGetValues object count attrs ts =>
    some (lib.PWR_ObjAttrGetValues get object count (some attrs) true ts status b)
  | ObjAttrSetValues object count attrs =>
    some (lib.PWR_ObjAttrSetValues set object count (some attrs) true status b)
  | GrpAttrGetValue group attr ts => lib.PWR_GrpAttrGetValue get group attr true ts status b
  | GrpAttrGetValues group count attrs ts =>
    lib.PWR_GrpAttrGetValues get group count (some attrs) true ts status b
  | GrpAttrSetValues group count attrs => lib.PWR_GrpAttrSetValues set group count (some attrs) true status b

end Perform

/-- The attempt that the code makes of an element, with the index it would push. -/
def attempt_of (e : Element) : AttrBatch → AttrCall × Int
  | ObjAttrGetValues _ _ _ ts | GrpAttrGetValue _ _ ts =>
    (⟨e.object, e.attr, wrap_int (8 * e.index), if ts then some (e.index : Int) else none⟩, e.index)
  | ObjAttrSetValues _ _ _ => (⟨e.object, e.attr, wrap_int (8 * e.index), none⟩, 0)
  | GrpAttrGetValues _ _ _ ts =>
    (⟨e.object, e.attr, wrap_int (wrap_int e.index * 8), if ts then some (wrap_int e.index) else none⟩,
      wrap_int e.index)
  | GrpAttrSetValues _ _ _ => (⟨e.object, e.attr, wrap_int (e.index * 8), none⟩, e.index)

end AttrBatch

section Groups

variable {lib : Library} {group : UInt64} {objects : List UInt64}

theorem num_objs_of_objects (h : lib.HasObjects group objects) :
    lib.PWR_GrpGetNumObjs group = some { status := objects.length } := by
  obtain ⟨grp, g, hfind, hlookup, -, rfl⟩ := h
  simp [Library.PWR_GrpGetNumObjs, hfind, hlookup]

theorem obj_by_indx_of_objects (h : lib.HasObjects group objects) {i : ℕ} {o : UInt64}
    (ho : objects[i]? = some o) : lib.PWR_GrpGetObjByIndx group i = some (Library.success o) := by
  obtain ⟨grp, g, hfind, hlookup, halive, rfl⟩ := h
  rw [List.getElem?_map, Option.map_eq_some_iff] at ho
  obtain ⟨obj, hobj, rfl⟩ := ho
  have hmem : obj ∈ lib.objects := halive obj (List.mem_of_getElem? hobj)
  simp [Library.PWR_GrpGetObjByIndx, hfind, hlookup, hobj, hmem]

theorem count_objects_of_objects {σ : Type} (h : lib.HasObjects group objects) (b : Batch σ) :
    lib.count_objects group b = some (.ok objects.length) := by
  have hnonneg : ¬ (objects.length : Int) < 0 := by omega
  simp [Library.count_objects, num_objs_of_objects h, hnonneg]

end Groups

section Loops

variable {σ : Type} {get set : AttrCall → σ → Int × σ} {lib : Library} {objects : List UInt64} {stat : Option Nat}
  {status : UInt64}

theorem attempts_append {op : AttrCall → σ → Int × σ} {b : Batch σ} (l l' : List (AttrCall × Int)) :
    b.attempts op stat (l ++ l') = (b.attempts op stat l).attempts op stat l' := List.foldl_append

theorem get_attributes_eq (group : UInt64) (count : ℕ) (attrs : ℕ → PwrAttrName) (ts : Bool) (o : UInt64) (n m : ℕ)
    (b : Batch σ) :
    Library.get_attributes get stat (Library.success o) n attrs ts b (wrap_int m) =
      (b.attempts get stat ((List.range n).map fun j =>
        (AttrBatch.GrpAttrGetValues group count attrs ts).attempt_of ⟨o, attrs j, m + j⟩), wrap_int (m + n : ℕ)) := by
  induction n with
  | zero => rfl
  | succ n ih =>
    have hnext : wrap_int (wrap_int (m + n : ℕ) + 1) = wrap_int (m + (n + 1) : ℕ) := Int.bmod_add_bmod
    rw [Library.get_attributes] at ih ⊢
    rw [List.range_succ, List.foldl_append, ih, List.map_append, attempts_append, ← hnext]
    simp only [List.foldl_cons, List.foldl_nil, List.map_cons, List.map_nil, Library.success, ne_eq,
      not_true_eq_false,
      if_false, Batch.attempts, AttrBatch.attempt_of]

theorem get_objects_eq (group : UInt64) (count : ℕ) (attrs : ℕ → PwrAttrName) (ts : Bool) (k : ℕ) (b : Batch σ) :
    (objects.zipIdx k).foldl (fun (s : Batch σ × Int) o =>
        Library.get_attributes get stat (Library.success o.1) count attrs ts s.1 s.2) (b, wrap_int (k * count : ℕ)) =
      (b.attempts get stat (((objects.zipIdx k).flatMap fun o => (List.range count).map fun j =>
          (⟨o.1, attrs j, o.2 * count + j⟩ : Element)).map
          fun e => (AttrBatch.GrpAttrGetValues group count attrs ts).attempt_of e),
        wrap_int ((k + objects.length) * count : ℕ)) := by
  induction objects generalizing k b with
  | nil => rfl
  | cons o rest ih =>
    have hcount : k * count + count = (k + 1) * count := (Nat.succ_mul k count).symm
    have hlength : k + (o :: rest).length = k + 1 + rest.length := by
      rw [List.length_cons]
      omega
    rw [List.zipIdx_cons, List.foldl_cons, get_attributes_eq group count, hcount, ih, List.flatMap_cons,
      List.map_append, attempts_append, List.map_map, hlength]
    rfl

theorem get_object_loop {group : UInt64} (hobjects : lib.HasObjects group objects) {count : ℕ}
    {attrs : ℕ → PwrAttrName} {ts : Bool} (s : Batch σ × Int) :
    (List.range objects.length).foldlM (lib.get_object get stat group count attrs ts) s =
      some (objects.zipIdx.foldl (fun (s : Batch σ × Int) o =>
        Library.get_attributes get stat (Library.success o.1) count attrs ts s.1 s.2) s) := by
  apply foldlM_range_zipIdx
  intro s i o ho
  rw [Library.get_object, obj_by_indx_of_objects hobjects ho]
  simp [Library.success]

theorem set_attributes_eq (group : UInt64) (count : ℕ) (attrs : ℕ → PwrAttrName) (o : UInt64) (n : ℕ) (b : Batch σ) :
    Library.set_attributes set stat (Library.success o) n attrs b =
      b.attempts set stat ((List.range n).map fun j =>
        (AttrBatch.GrpAttrSetValues group count attrs).attempt_of ⟨o, attrs j, j⟩) := by
  simp only [Library.set_attributes, Library.success, ne_eq, not_true_eq_false, if_false, Batch.attempts,
    List.foldl_map, AttrBatch.attempt_of]

theorem set_objects_eq {group : UInt64} {count : ℕ} {attrs : ℕ → PwrAttrName} (k : ℕ) (b : Batch σ) :
    (objects.zipIdx k).foldl (fun b o => Library.set_attributes set stat (Library.success o.1) count attrs b) b =
      b.attempts set stat ((objects.flatMap fun o => (List.range count).map fun j => (⟨o, attrs j, j⟩ : Element)).map
        fun e => (AttrBatch.GrpAttrSetValues group count attrs).attempt_of e) := by
  induction objects generalizing k b with
  | nil => rfl
  | cons o rest ih =>
    rw [List.zipIdx_cons, List.foldl_cons, set_attributes_eq group count, ih, List.flatMap_cons,
      List.map_append, attempts_append, List.map_map]
    rfl

theorem set_object_loop {group : UInt64} (hobjects : lib.HasObjects group objects) {count : ℕ}
    {attrs : ℕ → PwrAttrName} (b : Batch σ) :
    (List.range objects.length).foldlM (lib.set_object set stat group count attrs) b =
      some (objects.zipIdx.foldl (fun b o => Library.set_attributes set stat (Library.success o.1) count attrs b) b) := by
  apply foldlM_range_zipIdx
  intro b i o ho
  rw [Library.set_object, obj_by_indx_of_objects hobjects ho]
  simp [Library.success]

/-- The batch when its status has been cleared. -/
def Batch.cleared (queues : Nat → List AttrAccessError) (world : σ) (stat : Option Nat) : Batch σ :=
  { ({ queues, world } : Batch σ).clear_status stat with retval := PWR_RET_SUCCESS }

theorem check_arrays_ok (count : ℕ) (attrs : ℕ → PwrAttrName) (text : String) :
    Library.check_arrays count (some attrs) true text = .ok attrs := by
  have hnonneg : ¬ (count : Int) < 0 := by omega
  simp [Library.check_arrays, hnonneg]

theorem find_status_ok {target : UInt64} {b : Batch σ}
    (hstatus : (lib.find_status_by_opaque status).isSome → check_status_context status target = true) (text : String) :
    b.find_status lib status target text =
      .ok (lib.find_status_by_opaque status, b.clear_status (lib.find_status_by_opaque status)) := by
  rw [Batch.find_status, if_neg]
  simpa using hstatus

/-- Each batch call is a loop of attempts, one for each element. -/
theorem perform_eq {batch : AttrBatch} (hobjects : batch.OnObjects lib objects)
    (hstatus : (lib.find_status_by_opaque status).isSome → check_status_context status batch.target = true)
    (queues : Nat → List AttrAccessError) (world : σ) :
    batch.perform get set lib status { queues, world } =
      some ((Batch.cleared queues world (lib.find_status_by_opaque status)).attempts (batch.op get set)
        (lib.find_status_by_opaque status) ((batch.elements objects).map fun e => batch.attempt_of e)) := by
  cases batch with
  | ObjAttrGetValues object count attrs ts =>
    change _ → check_status_context status object = true at hstatus
    rw [AttrBatch.perform, Library.PWR_ObjAttrGetValues, check_arrays_ok]
    simp only [find_status_ok hstatus, Int.toNat_natCast, Batch.attempts, AttrBatch.elements, List.map_map,
      List.foldl_map]
    rfl
  | ObjAttrSetValues object count attrs =>
    change _ → check_status_context status object = true at hstatus
    rw [AttrBatch.perform, Library.PWR_ObjAttrSetValues, check_arrays_ok]
    simp only [find_status_ok hstatus, Int.toNat_natCast, Batch.attempts, AttrBatch.elements, List.map_map,
      List.foldl_map]
    rfl
  | GrpAttrGetValue group attr ts =>
    change _ → check_status_context status group = true at hstatus
    rw [AttrBatch.perform, Library.PWR_GrpAttrGetValue, if_pos rfl, Library.attempt_objects]
    simp only [find_status_ok hstatus, count_objects_of_objects hobjects, Batch.attempts, AttrBatch.elements,
      List.map_map,
      List.foldl_map]
    apply foldlM_range_zipIdx
    intro b i o ho
    rw [Library.attempt_object, obj_by_indx_of_objects hobjects ho]
    simp only [Library.success, ne_eq, not_true_eq_false, if_false]
    rfl
  | GrpAttrGetValues group count attrs ts =>
    change _ → check_status_context status group = true at hstatus
    rw [AttrBatch.perform, Library.PWR_GrpAttrGetValues, check_arrays_ok]
    simp only [find_status_ok hstatus, count_objects_of_objects hobjects, Int.toNat_natCast]
    rw [get_object_loop hobjects]
    refine congrArg some (Eq.trans ?_ (congrArg Prod.fst (get_objects_eq group count attrs ts 0 _)))
    rw [Nat.zero_mul]
    rfl
  | GrpAttrSetValues group count attrs =>
    change _ → check_status_context status group = true at hstatus
    rw [AttrBatch.perform, Library.PWR_GrpAttrSetValues, check_arrays_ok]
    simp only [find_status_ok hstatus, count_objects_of_objects hobjects, Int.toNat_natCast]
    rw [set_object_loop hobjects]
    exact congrArg some (set_objects_eq 0 _)

end Loops

/-- An offset in bytes fits in an `int` below 2 ^ 28 elements. -/
theorem wrap_int_offset_iff (k : ℕ) : wrap_int (8 * k) = 8 * k ↔ k < 2 ^ 28 := by
  rw [wrap_int, Int.bmod_def]
  omega

theorem wrap_int_of_lt {k : ℕ} (h : k < 2 ^ 28) : wrap_int k = k := by
  rw [wrap_int, Int.bmod_def]
  omega

namespace AttrBatch

/-- Whether every failure is pushed with index 0. -/
def pushes_zero : AttrBatch → Bool
  | ObjAttrSetValues _ _ _ => true
  | _ => false

variable {batch : AttrBatch} {e : Element}

theorem attempt_call_iff : (batch.attempt_of e).1 = e.call batch.ts ↔ e.index < 2 ^ 28 := by
  have hoffset : wrap_int (wrap_int e.index * 8) = wrap_int (8 * e.index) := by
    rw [mul_comm (8 : Int), wrap_int, wrap_int, Int.bmod_mul_bmod]
    rfl
  rw [← wrap_int_offset_iff]
  cases batch with
  | ObjAttrGetValues | GrpAttrGetValue | ObjAttrSetValues =>
    simp only [attempt_of, Element.call, AttrCall.mk.injEq, true_and]
    exact and_iff_left rfl
  | GrpAttrGetValues =>
    simp only [attempt_of, Element.call, AttrCall.mk.injEq, true_and, hoffset]
    refine ⟨And.left, fun h => ⟨h, ?_⟩⟩
    rw [wrap_int_of_lt ((wrap_int_offset_iff _).mp h)]
    rfl
  | GrpAttrSetValues =>
    simp only [attempt_of, Element.call, AttrCall.mk.injEq, true_and, mul_comm (8 : Int)]
    exact and_iff_left rfl

theorem attempt_index (h : e.index < 2 ^ 28) :
    (batch.attempt_of e).2 = if batch.pushes_zero then 0 else (e.index : Int) := by
  cases batch with
  | GrpAttrGetValues =>
    rw [attempt_of, wrap_int_of_lt h]
    rfl
  | _ => rfl

end AttrBatch

theorem failures_zero_iff {elements : List Element} (f : Element → AttrCall) (codes : List Int) :
    failures (elements.map fun e => (f e, 0)) codes = failures (elements.map fun e => (f e, (e.index : Int))) codes ↔
      ∀ p ∈ elements.zip codes, p.2 ≠ PWR_RET_SUCCESS → p.1.index = 0 := by
  induction elements generalizing codes with
  | nil => simp [failures]
  | cons e rest ih =>
    cases codes with
    | nil => simp [failures]
    | cons code codes =>
      rw [List.map_cons, List.map_cons, Batch.failures_cons _ (rest.map _), Batch.failures_cons _ (rest.map _),
        List.zip_cons_cons,
        List.forall_mem_cons, ← ih]
      by_cases hcode : code = PWR_RET_SUCCESS
      · simp [failures, hcode]
      · simp [failures, hcode, eq_comm]

section Claims

open AttrBatch

variable {σ : Type} {get set : AttrCall → σ → Int × σ} {lib : Library} {objects : List UInt64}
  {status : UInt64}

@[simp] theorem cleared_calls {queues : Nat → List AttrAccessError} {world : σ} {stat : Option Nat} :
    (Batch.cleared queues world stat).calls = [] := by
  cases stat <;> rfl

@[simp] theorem cleared_world {queues : Nat → List AttrAccessError} {world : σ} {stat : Option Nat} :
    (Batch.cleared queues world stat).world = world := by
  cases stat <;> rfl

theorem cleared_queue {queues : Nat → List AttrAccessError} {world : σ} {stat : Option Nat} {a : Nat}
    (ha : stat = some a) : (Batch.cleared queues world stat).queues a = [] := by
  rw [ha]
  exact Function.update_self _ _ _

theorem cleared_reports_iff {op : AttrCall → σ → Int × σ} {ts : Bool} {stat : Option Nat}
    {queues : Nat → List AttrAccessError} {world : σ} {l : List (AttrCall × Int)} {elements : List Element} :
    ((Batch.cleared queues world stat).attempts op stat l).Reports op ts stat elements world ↔
      l.map Prod.fst = elements.map (Element.call ts) ∧
        ∀ a, stat = some a → failures l ((perform_all op (l.map Prod.fst) world).1.map Prod.snd) =
          failures (elements.map fun e => (e.call ts, (e.index : Int)))
            ((perform_all op (l.map Prod.fst) world).1.map Prod.snd) :=
  Batch.attempts_reports_iff cleared_calls cleared_world rfl fun _ ha => cleared_queue ha

/-- Every batch call keeps its promise as long as the offsets into the arrays fit in an `int`, and
`PWR_ObjAttrSetValues` as long as besides no element but the first one fails, or nobody asks. -/
theorem batch_reports_iff (batch : AttrBatch) (hobjects : batch.OnObjects lib objects)
    (hstatus : (lib.find_status_by_opaque status).isSome → check_status_context status batch.target = true)
    (queues : Nat → List AttrAccessError) (world : σ) :
    (∃ b, batch.perform get set lib status { queues, world } = some b ∧
      b.Reports (batch.op get set) batch.ts (lib.find_status_by_opaque status) (batch.elements objects) world) ↔
      (∀ e ∈ batch.elements objects, e.index < 2 ^ 28) ∧
        (batch.pushes_zero = true → (lib.find_status_by_opaque status).isSome →
          ∀ p ∈ (batch.elements objects).zip ((perform_all (batch.op get set)
            ((batch.elements objects).map (Element.call batch.ts)) world).1.map Prod.snd),
            p.2 ≠ PWR_RET_SUCCESS → p.1.index = 0) := by
  rw [perform_eq hobjects hstatus]
  simp only [Option.some.injEq, exists_eq_left']
  rw [cleared_reports_iff, List.map_map, List.map_inj_left]
  simp only [Function.comp_apply, attempt_call_iff]
  refine and_congr_right fun hin => ?_
  have hsame : (batch.elements objects).map (fun e => batch.attempt_of e) =
      (batch.elements objects).map fun e => (e.call batch.ts, if batch.pushes_zero then 0 else (e.index : Int)) := by
    apply List.map_congr_left
    intro e he
    exact Prod.ext (attempt_call_iff.mpr (hin e he)) (attempt_index (hin e he))
  have hmade : (batch.elements objects).map (Prod.fst ∘ fun e => batch.attempt_of e) =
      (batch.elements objects).map (Element.call batch.ts) := by
    apply List.map_congr_left
    intro e he
    exact attempt_call_iff.mpr (hin e he)
  rw [hsame, hmade]
  cases hzero : batch.pushes_zero with
  | false => simp
  | true =>
    simp only [if_true, failures_zero_iff, true_imp_iff, Option.isSome_iff_exists]
    constructor
    · rintro h ⟨a, ha⟩
      exact h a ha
    · rintro h a ha
      exact h ⟨a, ha⟩

/-- The one value that `PWR_GrpAttrSetValue` sets is that of every object. -/
theorem set_value_reports {group : UInt64} {attr : PwrAttrName} (hobjects : lib.HasObjects group objects)
    (hstatus : (lib.find_status_by_opaque status).isSome → check_status_context status group = true)
    (queues : Nat → List AttrAccessError) (world : σ) :
    ∃ b, lib.PWR_GrpAttrSetValue set group attr true status { queues, world } = some b ∧
      b.Reports set false (lib.find_status_by_opaque status) (objects.map fun o => ⟨o, attr, 0⟩) world := by
  refine ⟨(Batch.cleared queues world (lib.find_status_by_opaque status)).attempts set
    (lib.find_status_by_opaque status) (objects.zipIdx.map fun o => (⟨o.1, attr, 0, none⟩, 0)), ?_, ?_⟩
  · rw [Library.PWR_GrpAttrSetValue, if_pos rfl, Library.attempt_objects]
    simp only [find_status_ok hstatus, count_objects_of_objects hobjects, Batch.attempts, List.foldl_map]
    apply foldlM_range_zipIdx
    intro b i o ho
    rw [Library.attempt_object, obj_by_indx_of_objects hobjects ho]
    simp only [Library.success, ne_eq, not_true_eq_false, if_false]
  · have hplaces : objects.zipIdx.map (fun o => ((⟨o.1, attr, 0, none⟩, 0) : AttrCall × Int)) =
        (objects.map fun o => (⟨o, attr, 0⟩ : Element)).map fun e => (e.call false, (e.index : Int)) := by
      conv_rhs => rw [← List.zipIdx_map_fst 0 objects, List.map_map, List.map_map]
      rfl
    rw [cleared_reports_iff, hplaces, List.map_map]
    exact ⟨rfl, fun _ _ => rfl⟩

/-- A library with a group of two objects and a status, all of one context. -/
def pair_library : Library :=
  { opaque_map :=
      { table := (((∅ : HashTable UInt64 Nat).insert 5 100).insert 11 201).insert 12 202 |>.insert 9 300
        refs := fun record =>
          if record = 100 then { type := .GROUP, key := 5 }
          else if record = 201 then { type := .OBJECT, key := 11 }
          else if record = 202 then { type := .OBJECT, key := 12 }
          else if record = 300 then { type := .STATUS, key := 9 }
          else {} }
    groups := (∅ : HashTable Nat Group).insert 100 { context_key := 3, list := [201, 202] }
    objects := ((∅ : HashTable Nat Obj).insert 201 ⟨.SOCKET, "socket.0", none⟩).insert 202
      ⟨.SOCKET, "socket.1", none⟩ }

/-- Gets and sets that only frequencies can be got and set by. -/
def only_frequency (call : AttrCall) (_ : Unit) : Int × Unit :=
  (if call.attr = .FREQ then PWR_RET_SUCCESS else PWR_RET_NOT_IMPLEMENTED, ())

/-- The attributes of which the second fails. -/
def frequency_and_temperature (i : ℕ) : PwrAttrName := if i = 0 then .FREQ else .TEMP

theorem pair_library_objects :
    pair_library.HasObjects (OPAQUE_GENERATE 3 5) [OPAQUE_GENERATE 3 11, OPAQUE_GENERATE 3 12] :=
  ⟨100, { context_key := 3, list := [201, 202] }, rfl, rfl, by decide, rfl⟩

theorem batch_reports_pair : ∃ b,
    (AttrBatch.GrpAttrGetValues (OPAQUE_GENERATE 3 5) 2 frequency_and_temperature true).perform only_frequency
      only_frequency pair_library (OPAQUE_GENERATE 3 9) { queues := fun _ => [], world := () } = some b ∧
    b.Reports only_frequency true (some 300)
      [⟨OPAQUE_GENERATE 3 11, .FREQ, 0⟩, ⟨OPAQUE_GENERATE 3 11, .TEMP, 1⟩,
       ⟨OPAQUE_GENERATE 3 12, .FREQ, 2⟩, ⟨OPAQUE_GENERATE 3 12, .TEMP, 3⟩] () :=
  (batch_reports_iff (.GrpAttrGetValues _ 2 _ true) pair_library_objects (fun _ => by decide) _ ()).mpr
     ⟨by decide, fun h => absurd h (by decide)⟩

/-- The second attribute fails and is reported as the first element. -/
theorem set_values_reports_pair : ¬ ∃ b,
    (AttrBatch.ObjAttrSetValues (OPAQUE_GENERATE 3 11) 2 frequency_and_temperature).perform only_frequency
      only_frequency pair_library (OPAQUE_GENERATE 3 9) { queues := fun _ => [], world := () } = some b ∧
    b.Reports only_frequency false (some 300)
      [⟨OPAQUE_GENERATE 3 11, .FREQ, 0⟩, ⟨OPAQUE_GENERATE 3 11, .TEMP, 1⟩] () := by
  rintro ⟨b, hb, hreports⟩
  cases hb
  exact absurd (hreports.queue 300 rfl) (by decide)

end Claims

end pwrapi
