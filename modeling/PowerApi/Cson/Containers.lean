import PowerApi.Cson.Parser

namespace cson

/-- Every value allocated so far, and the addresses of those that were freed. -/
structure Memory (S D : Type) where
  heap : Heap S D := []
  freed : List Ref := []

/-- The address of a value and those of all that it holds. -/
def value_refs {S D : Type} (h : Heap S D) : (fuel : ℕ) → Ref → List Ref
  | 0, _ => []
  | fuel + 1, r =>
    r :: match h[r]? with
      | some (.ARRAY list) => list.flatMap (value_refs h fuel)
      | some (.OBJECT kvp) => kvp.flatMap fun member => value_refs h fuel member.2
      | _ => []

namespace Memory

variable {S D : Type}

/-- The value at an address, unless it was freed. -/
def get (m : Memory S D) (r : Ref) : Option (CsonValue S D) := if r ∈ m.freed then none else m.heap[r]?

def put (r : Ref) (v : CsonValue S D) (m : Memory S D) : Memory S D := { m with heap := m.heap.set r v }

/-- `cson_value_new` -/
def alloc (v : CsonValue S D) (m : Memory S D) : Ref × Memory S D := (m.heap.length, { m with heap := m.heap ++ [v] })

/-- Nothing of the value was freed. -/
def live (m : Memory S D) (v : Ref) : Bool := (value_refs m.heap m.heap.length v).all fun r => decide (r ∉ m.freed)

/-- `cson_value_free`, for a value that is in no other container: all that it holds goes with it. -/
def cson_value_free (v : Ref) (m : Memory S D) : Option (Memory S D) :=
  if m.live v then some { m with freed := value_refs m.heap m.heap.length v ++ m.freed } else none

end Memory

/-! Objects and arrays. A call that uses a value after it was freed has no result. -/

section Containers

variable {D : Type}

/-- The first member with the key gets the value. -/
def kvp_replace (key : Bytes) (v : Ref) : List (Bytes × Ref) → List (Bytes × Ref)
  | [] => []
  | member :: kvp => if member.1 = key then (key, v) :: kvp else member :: kvp_replace key v kvp

def cson_object_get (obj : Ref) (key : Bytes) (m : Memory Bytes D) : Option (Option Ref) :=
  match m.get obj with
  | some (.OBJECT kvp) => some ((kvp.find? fun member => member.1 = key).map Prod.snd)
  | _ => none

def cson_object_set (obj : Ref) (key : Bytes) (v : Ref) (m : Memory Bytes D) : Option (CsonRc × Memory Bytes D) :=
  if key = [] then
    some (.ArgError, m)
  else
    match m.get obj with
    | some (.OBJECT kvp) =>
      match kvp.find? fun member => member.1 = key with
      | some (_, old) =>
        if old = v then some (.OK, m)
        else (m.cson_value_free old).map fun m => (.OK, m.put obj (.OBJECT (kvp_replace key v kvp)))
      | none => some (.OK, m.put obj (.OBJECT (kvp ++ [(key, v)])))
    | _ => none

/-- `cson_array_set`, up to the end of the array. -/
def cson_array_set (ar : Ref) (ndx : ℕ) (v : Ref) (m : Memory Bytes D) : Option (CsonRc × Memory Bytes D) :=
  match m.get ar with
  | some (.ARRAY list) =>
    match list[ndx]? with
    | some old =>
      if old = v then some (.OK, m) else (m.cson_value_free old).map fun m => (.OK, m.put ar (.ARRAY (list.set ndx v)))
    | none => if ndx = list.length then some (.OK, m.put ar (.ARRAY (list ++ [v]))) else none
  | _ => none

/-- `cson_array_append` -/
def Memory.cson_array_append (ar v : Ref) (m : Memory Bytes D) : Option (CsonRc × Memory Bytes D) :=
  match m.get ar with
  | some (.ARRAY list) => cson_array_set ar list.length v m
  | _ => none

end Containers

end cson
