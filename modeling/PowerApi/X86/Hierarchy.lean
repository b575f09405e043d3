import PowerApi.Lib.NaryTree
import PowerApi.Types

open NaryTree

namespace pwrapi.x86

/-- `obj_t`, with the members of `core_t`, `socket_t` and `mem_t` and of the plugin's data
that are set when the hierarchy is read. -/
structure HierObj where
  type : PwrObjType
  name : String
  os_id : UInt64
  gnode : Option Nat := none
  socket_id : UInt64 := 0
  ht_id : UInt64 := 0
  rapl_pkg_id : UInt64 := 0
  rapl_mem_id : UInt64 := 0
  deriving DecidableEq, Repr

/-- `hierarchy_t`, with the tree nodes and the objects it leads to by their addresses. -/
structure Hierarchy where
  tree : Option Nat := none
  map : HashTable String Nat := ∅
  gnodes : Heap Nat Nat := ∅
  objects : HashTable Nat HierObj := ∅

/-- The address of a new object and of its tree node, where they can be had. -/
structure NewObj where
  object : Option Nat
  gnode : Option Nat
  deriving DecidableEq, Repr

/-- A call of `x86_find_ht`, with the objects it may create and the RAPL domains of the
socket, if they are found. -/
structure HtCall where
  ht_id : UInt64
  socket : NewObj
  mem : NewObj
  core : NewObj
  ht : NewObj
  rapl : Option (UInt64 × UInt64)
  deriving DecidableEq, Repr

def HtCall.news (call : HtCall) : List NewObj := [call.socket, call.mem, call.core, call.ht]

/-- The numbers in the topology directory of each hardware thread, where they can be read. -/
structure Topology where
  physical_package_id : UInt64 → Option UInt64
  core_id : UInt64 → Option UInt64

namespace Topology

/-- A number that cannot be read stays 0. -/
def socket_of (t : Topology) (ht_id : UInt64) : UInt64 := (t.physical_package_id ht_id).getD 0

def core_of (t : Topology) (ht_id : UInt64) : UInt64 := (t.core_id ht_id).getD 0

end Topology

def socket_name (socket_id : UInt64) : String := "socket." ++ toString socket_id

def mem_name (socket_id : UInt64) : String := "mem." ++ toString socket_id

def core_name (socket_id core_id : UInt64) : String := "core." ++ toString socket_id ++ "." ++ toString core_id

def ht_name (ht_id : UInt64) : String := "ht." ++ toString ht_id

namespace Hierarchy

/-- `g_hash_table_insert`, which destroys the object that the name was mapped to. -/
def map_insert (h : Hierarchy) (name : String) (obj : Nat) : Hierarchy :=
  match h.map.lookup name with
  | none => { h with map := h.map.insert name obj }
  | some replaced => { h with map := h.map.insert name obj, objects := h.objects.erase replaced }

/-- The object at the address, which is inserted with `gnode` as its tree node. -/
def hierarchy_insert (h : Hierarchy) (parent : Option Nat) (address : Nat) (obj : HierObj) (gnode : Option Nat) :
    Int × Hierarchy :=
  match gnode with
  | none => (PWR_RET_FAILURE, h)
  | some g =>
    let h := { h with objects := h.objects.insert address { obj with gnode := some g } }
    let h :=
      match parent with
      | some p => { h with gnodes := append_leaf h.gnodes p g address }
      | none => { h with tree := some g, gnodes := h.gnodes.insert g { data := address } }
    (PWR_RET_SUCCESS, h.map_insert obj.name address)

/-- `obj.gnode` of the object at an address. -/
def gnode_of (h : Hierarchy) (address : Nat) : Option Nat := (h.objects.lookup address).bind HierObj.gnode

def x86_find_socket (call : HtCall) (socket_id : UInt64) (h : Hierarchy) : Option Nat × Hierarchy :=
  match h.map.lookup (socket_name socket_id) with
  | some found => (some found, h)
  | none =>
    match call.socket.object, call.mem.object, call.rapl with
    | some socket, some mem, some (rapl_pkg_id, rapl_mem_id) =>
      let socket_obj : HierObj :=
        { type := .SOCKET, name := socket_name socket_id, os_id := socket_id, ht_id := call.ht_id, rapl_pkg_id }
      let mem_obj : HierObj :=
        { type := .MEM, name := mem_name socket_id, os_id := socket_id, ht_id := call.ht_id, rapl_pkg_id,
          rapl_mem_id }
      match h.hierarchy_insert h.tree socket socket_obj call.socket.gnode with
      | (status, h) =>
        if status ≠ 0 then (none, h)
        else
          -- the socket is found also when its memory object cannot be inserted
          (some socket, (h.hierarchy_insert (h.gnode_of socket) mem mem_obj call.mem.gnode).2)
    | _, _, _ => (none, h)

def x86_find_core (call : HtCall) (core_id socket_id : UInt64) (h : Hierarchy) : Option Nat × Hierarchy :=
  match h.map.lookup (core_name socket_id core_id) with
  | some found => (some found, h)
  | none =>
    match h.x86_find_socket call socket_id with
    | (none, h) => (none, h)
    | (some socket, h) =>
      match call.core.object with
      | none => (none, h)
      | some core =>
        let core_obj : HierObj :=
          { type := .CORE, name := core_name socket_id core_id, os_id := core_id, socket_id }
        match h.hierarchy_insert (h.gnode_of socket) core core_obj call.core.gnode with
        | (status, h) => if status ≠ 0 then (none, h) else (some core, h)

def x86_find_ht (topology : Topology) (call : HtCall) (h : Hierarchy) : Option Nat × Hierarchy :=
  match h.x86_find_core call (topology.core_of call.ht_id) (topology.socket_of call.ht_id) with
  | (none, h) => (none, h)
  | (some core, h) =>
    match call.ht.object with
    | none => (none, h)
    | some ht =>
      let ht_obj : HierObj := { type := .HT, name := ht_name call.ht_id, os_id := call.ht_id }
      match h.hierarchy_insert (h.gnode_of core) ht ht_obj call.ht.gnode with
      | (status, h) => if status ≠ 0 then (none, h) else (some ht, h)

/-- The node, and one of its power planes, whose name begins with the given letters. -/
def node_obj : HierObj := { type := .NODE, name := "node." ++ toString (0 : UInt64), os_id := 0 }

def pplane_obj (letters : String) (os_id : UInt64) : HierObj :=
  { type := .POWER_PLANE, name := letters ++ toString (0 : UInt64), os_id }

def x86_insert_pplane (letters : String) (os_id : UInt64) (root : Option Nat) (new : NewObj) (h : Hierarchy) :
    Int × Hierarchy :=
  match new.object with
  | none => (PWR_RET_FAILURE, h)
  | some pplane =>
    h.hierarchy_insert root pplane (pplane_obj letters os_id) new.gnode

/-- What `x86_construct_hierarchy` inserts before it reads the rest: the node and its power
planes. -/
def x86_insert_node (node cpu mem : NewObj) (h : Hierarchy) : Int × Hierarchy :=
  match node.object with
  | none => (PWR_RET_FAILURE, h)
  | some obj =>
    match h.hierarchy_insert none obj node_obj node.gnode with
    | (status, h) =>
      if status ≠ 0 then (status, h)
      else
        let root := h.gnode_of obj
        match h.x86_insert_pplane "pm_counters.cpu." 0 root cpu with
        | (status, h) =>
          if status ≠ 0 then (status, h) else h.x86_insert_pplane "pm_counters.mem." 1 root mem

/-- What is allocated one after the other lies at addresses that are not in use. An object
that gets no tree node is freed again, and the next one may have its address. -/
structure Fresh (h : Hierarchy) (news : List NewObj) : Prop where
  objects : ∀ new ∈ news, ∀ a ∈ new.object, h.objects.lookup a = none
  gnodes : ∀ new ∈ news, ∀ g ∈ new.gnode, h.gnodes.lookup g = none
  distinct : news.Pairwise fun new later =>
    (new.gnode ≠ none → ∀ a ∈ new.object, later.object ≠ some a) ∧ ∀ g ∈ new.gnode, later.gnode ≠ some g

instance (h : Hierarchy) (news : List NewObj) : Decidable (Fresh h news) :=
  decidable_of_iff ((∀ new ∈ news, ∀ a ∈ new.object, h.objects.lookup a = none) ∧
      (∀ new ∈ news, ∀ g ∈ new.gnode, h.gnodes.lookup g = none) ∧
      news.Pairwise fun new later =>
        (new.gnode ≠ none → ∀ a ∈ new.object, later.object ≠ some a) ∧ ∀ g ∈ new.gnode, later.gnode ≠ some g)
    ⟨fun h => ⟨h.1, h.2.1, h.2.2⟩, fun h => ⟨h.objects, h.gnodes, h.distinct⟩⟩

end Hierarchy

end pwrapi.x86
