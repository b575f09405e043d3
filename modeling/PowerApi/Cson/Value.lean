import Mathlib.Tactic.Common

namespace cson

/-- A JSON value, the strings of type `S` and the floating point numbers of type `D`. -/
inductive Value (S D : Type) where
  | null
  | bool (b : Bool)
  | integer (n : Int64)
  | double (d : D)
  | string (s : S)
  | array (list : List (Value S D))
  | object (kvp : List (S × Value S D))

/-- The address of a `cson_value`. -/
abbrev Ref := ℕ

/-- `cson_value`: the containers hold pointers. -/
inductive CsonValue (S D : Type) where
  | NULL
  | BOOL (b : Bool)
  | INTEGER (n : Int64)
  | DOUBLE (d : D)
  | STRING (s : S)
  | ARRAY (list : List Ref)
  | OBJECT (kvp : List (S × Ref))
  deriving DecidableEq, Repr

variable {S D : Type}

/-- Every value allocated so far, by its address. The shared constants of the source (`null`, the
booleans, the number zero) are allocated like the others, as nothing ever changes them. -/
abbrev Heap (S D : Type) := List (CsonValue S D)

/-- `cson_value_new` -/
def cson_value_new (v : CsonValue S D) (h : Heap S D) : Ref × Heap S D := (h.length, h ++ [v])

/-- `cson_array_append` -/
def cson_array_append (ar v : Ref) (h : Heap S D) : Heap S D :=
  match h[ar]? with
  | some (.ARRAY list) => h.set ar (.ARRAY (list ++ [v]))
  | _ => h

/-- `cson_kvp_list_append`, on the list of an object. -/
def cson_kvp_list_append (obj : Ref) (key : S) (v : Ref) (h : Heap S D) : Heap S D :=
  match h[obj]? with
  | some (.OBJECT kvp) => h.set obj (.OBJECT (kvp ++ [(key, v)]))
  | _ => h

/-- A container that is still being filled: what is in it, and for an object the key of the
member that comes next. -/
inductive Frame (S D : Type) where
  | array (list : List (Value S D))
  | object (kvp : List (S × Value S D)) (key : Option S)

namespace Frame

/-- The container with one more element. -/
def add (v : Value S D) : Frame S D → Frame S D
  | array list => array (list ++ [v])
  | object kvp (some k) => object (kvp ++ [(k, v)]) none
  | object kvp none => object kvp none

/-- The finished container. -/
def close : Frame S D → Value S D
  | array list => .array list
  | object kvp _ => .object kvp

def key : Frame S D → Option S
  | array _ => none
  | object _ key => key

def is_array : Frame S D → Bool
  | array _ => true
  | object _ _ => false

/-- An element can be added: an object has the key for it. -/
def Ready : Frame S D → Prop
  | array _ => True
  | object _ key => key.isSome

end Frame

/-! What the heap stores -/

mutual

/-- The value at the address `r` is `v`, all of it at addresses from `r` on and below `hi`. -/
def Stored (h : Heap S D) (hi : Ref) (r : Ref) : Value S D → Prop
  | .null => r < hi ∧ h[r]? = some .NULL
  | .bool b => r < hi ∧ h[r]? = some (.BOOL b)
  | .integer n => r < hi ∧ h[r]? = some (.INTEGER n)
  | .double d => r < hi ∧ h[r]? = some (.DOUBLE d)
  | .string s => r < hi ∧ h[r]? = some (.STRING s)
  | .array list => r < hi ∧ ∃ refs, h[r]? = some (.ARRAY refs) ∧ StoredList h hi r refs list
  | .object kvp => r < hi ∧ ∃ refs, h[r]? = some (.OBJECT refs) ∧ StoredKvp h hi r refs kvp

/-- The elements of the array at `r`. -/
def StoredList (h : Heap S D) (hi : Ref) (r : Ref) : List Ref → List (Value S D) → Prop
  | [], [] => True
  | c :: refs, v :: list => r < c ∧ Stored h hi c v ∧ StoredList h hi r refs list
  | _, _ => False

/-- The members of the object at `r`. -/
def StoredKvp (h : Heap S D) (hi : Ref) (r : Ref) : List (S × Ref) → List (S × Value S D) → Prop
  | [], [] => True
  | (k', c) :: refs, (k, v) :: kvp => k' = k ∧ r < c ∧ Stored h hi c v ∧ StoredKvp h hi r refs kvp
  | _, _ => False

end

/-- The container at `r` is the open `frame`, with the open child `child` at its end. -/
def Frame.Holds (h : Heap S D) (hi r : Ref) (child : Option Ref) : Frame S D → Prop
  | .array list => ∃ refs, h[r]? = some (.ARRAY (refs ++ child.toList)) ∧ StoredList h hi r refs list
  | .object kvp key => ∃ refs, h[r]? = some (.OBJECT (refs ++ child.toList.filterMap fun c => key.map fun k => (k, c))) ∧
      StoredKvp h hi r refs kvp

/-- The open containers from the innermost to the outermost, each the last one in the next. -/
def Spine (h : Heap S D) : Ref → Option Ref → List Ref → List (Frame S D) → Prop
  | _, _, [], [] => True
  | hi, child, r :: refs, frame :: frames =>
    r < hi ∧ frame.Holds h hi r child ∧ Spine h r (some r) refs frames
  | _, _, _, _ => False

section Stored

variable {h h' : Heap S D} {hi hi' r : Ref}

mutual

/-- A stored value stays where the addresses from its own on do not change. -/
theorem Stored.agree (hle : hi ≤ hi') : {r : Ref} → (v : Value S D) →
    (∀ a, r ≤ a → a < hi → h'[a]? = h[a]?) → Stored h hi r v → Stored h' hi' r v
  | r, .null, hagree, ⟨hr, hv⟩ => ⟨Nat.lt_of_lt_of_le hr hle, (hagree r (Nat.le_refl _) hr).trans hv⟩
  | r, .bool _, hagree, ⟨hr, hv⟩ => ⟨Nat.lt_of_lt_of_le hr hle, (hagree r (Nat.le_refl _) hr).trans hv⟩
  | r, .integer _, hagree, ⟨hr, hv⟩ => ⟨Nat.lt_of_lt_of_le hr hle, (hagree r (Nat.le_refl _) hr).trans hv⟩
  | r, .double _, hagree, ⟨hr, hv⟩ => ⟨Nat.lt_of_lt_of_le hr hle, (hagree r (Nat.le_refl _) hr).trans hv⟩
  | r, .string _, hagree, ⟨hr, hv⟩ => ⟨Nat.lt_of_lt_of_le hr hle, (hagree r (Nat.le_refl _) hr).trans hv⟩
  | r, .array list, hagree, ⟨hr, refs, hv, hlist⟩ =>
    ⟨Nat.lt_of_lt_of_le hr hle, refs, (hagree r (Nat.le_refl _) hr).trans hv,
      StoredList.agree hle list (fun a ha => hagree a (Nat.le_of_lt ha)) hlist⟩
  | r, .object kvp, hagree, ⟨hr, refs, hv, hkvp⟩ =>
    ⟨Nat.lt_of_lt_of_le hr hle, refs, (hagree r (Nat.le_refl _) hr).trans hv,
      StoredKvp.agree hle kvp (fun a ha => hagree a (Nat.le_of_lt ha)) hkvp⟩

theorem StoredList.agree (hle : hi ≤ hi') : {r : Ref} → {refs : List Ref} → (list : List (Value S D)) →
    (∀ a, r < a → a < hi → h'[a]? = h[a]?) → StoredList h hi r refs list → StoredList h' hi' r refs list
  | _, [], [], _, _ => trivial
  | _, [], _ :: _, _, hlist => hlist.elim
  | _, _ :: _, [], _, hlist => hlist.elim
  | _, _ :: _, v :: list, hagree, ⟨hc, hv, hlist⟩ =>
    ⟨hc, Stored.agree hle v (fun a ha => hagree a (Nat.lt_of_lt_of_le hc ha)) hv, StoredList.agree hle list hagree hlist⟩

theorem StoredKvp.agree (hle : hi ≤ hi') : {r : Ref} → {refs : List (S × Ref)} → (kvp : List (S × Value S D)) →
    (∀ a, r < a → a < hi → h'[a]? = h[a]?) → StoredKvp h hi r refs kvp → StoredKvp h' hi' r refs kvp
  | _, [], [], _, _ => trivial
  | _, [], _ :: _, _, hkvp => hkvp.elim
  | _, _ :: _, [], _, hkvp => hkvp.elim
  | _, (_, _) :: _, (_, v) :: kvp, hagree, ⟨hk, hc, hv, hkvp⟩ =>
    ⟨hk, hc, Stored.agree hle v (fun a ha => hagree a (Nat.lt_of_lt_of_le hc ha)) hv, StoredKvp.agree hle kvp hagree hkvp⟩

end

theorem Stored.lt {v : Value S D} (hv : Stored h hi r v) : r < hi := by
  cases v <;> exact hv.1

theorem StoredList.append {refs : List Ref} {list : List (Value S D)} {c : Ref} {v : Value S D}
    (hlist : StoredList h hi r refs list) (hc : r < c) (hv : Stored h hi c v) :
    StoredList h hi r (refs ++ [c]) (list ++ [v]) := by
  induction list generalizing refs with
  | nil =>
    cases refs with
    | nil => exact ⟨hc, hv, trivial⟩
    | cons => exact hlist.elim
  | cons w list ih =>
    cases refs with
    | nil => exact hlist.elim
    | cons => exact ⟨hlist.1, hlist.2.1, ih hlist.2.2⟩

theorem StoredKvp.append {refs : List (S × Ref)} {kvp : List (S × Value S D)} {c : Ref} {k : S} {v : Value S D}
    (hkvp : StoredKvp h hi r refs kvp) (hc : r < c) (hv : Stored h hi c v) :
    StoredKvp h hi r (refs ++ [(k, c)]) (kvp ++ [(k, v)]) := by
  induction kvp generalizing refs with
  | nil =>
    cases refs with
    | nil => exact ⟨rfl, hc, hv, trivial⟩
    | cons => exact hkvp.elim
  | cons w kvp ih =>
    cases refs with
    | nil => exact hkvp.elim
    | cons => exact ⟨hkvp.1, hkvp.2.1, hkvp.2.2.1, ih hkvp.2.2.2⟩

end Stored

/-! Building a value along its open containers -/

section Spine

variable {h h' : Heap S D} {hi r c : Ref} {child : Option Ref} {refs : List Ref} {frame : Frame S D}
  {frames : List (Frame S D)} {v : Value S D}

theorem Frame.Holds.agree (hheld : frame.Holds h hi r child) (hr : r < hi)
    (hagree : ∀ a, r ≤ a → a < hi → h'[a]? = h[a]?) : frame.Holds h' hi r child := by
  cases frame with
  | array list =>
    obtain ⟨elems, hnode, hlist⟩ := hheld
    exact ⟨elems, (hagree r (Nat.le_refl r) hr).trans hnode,
      StoredList.agree (Nat.le_refl hi) list (fun a ha => hagree a (Nat.le_of_lt ha)) hlist⟩
  | object kvp key =>
    obtain ⟨members, hnode, hkvp⟩ := hheld
    exact ⟨members, (hagree r (Nat.le_refl r) hr).trans hnode,
      StoredKvp.agree (Nat.le_refl hi) kvp (fun a ha => hagree a (Nat.le_of_lt ha)) hkvp⟩

theorem Spine.agree (hspine : Spine h hi child refs frames) (hagree : ∀ a < hi, h'[a]? = h[a]?) :
    Spine h' hi child refs frames := by
  induction refs generalizing hi child frames with
  | nil =>
    cases frames with
    | nil => trivial
    | cons => exact hspine.elim
  | cons r refs ih =>
    cases frames with
    | nil => exact hspine.elim
    | cons frame frames =>
      obtain ⟨hr, hheld, hrest⟩ := hspine
      exact ⟨hr, hheld.agree hr fun a _ ha => hagree a ha, ih hrest fun a ha => hagree a (Nat.lt_trans ha hr)⟩

theorem Spine.length_eq (hspine : Spine h hi child refs frames) : refs.length = frames.length := by
  induction refs generalizing hi child frames with
  | nil =>
    cases frames with
    | nil => rfl
    | cons => exact hspine.elim
  | cons r refs ih =>
    cases frames with
    | nil => exact hspine.elim
    | cons frame frames => exact congrArg (· + 1) (ih hspine.2.2)

/-- Hanging a value at the end of a container: `cson_array_append`, or `cson_kvp_list_append` under
the key that the container waits for. -/
def attach (frame : Frame S D) (r c : Ref) (h : Heap S D) : Heap S D :=
  match frame with
  | .array _ => cson_array_append r c h
  | .object _ (some key) => cson_kvp_list_append r key c h
  | .object _ none => h

theorem length_attach : (attach frame r c h).length = h.length := by
  unfold attach cson_array_append cson_kvp_list_append
  split <;> [split; split; skip] <;> simp only [List.length_set]

theorem getElem?_attach_of_ne {a : Ref} (hne : a ≠ r) : (attach frame r c h)[a]? = h[a]? := by
  unfold attach cson_array_append cson_kvp_list_append
  split <;> [split; split; skip] <;> simp only [List.getElem?_set_ne (Ne.symm hne)]

/-- Once a child hangs in it, the innermost container holds it as an open child. -/
theorem Frame.Holds.attach (hheld : frame.Holds h hi r none) (hready : frame.Ready) (hhi : hi ≤ h.length) (hr : r < hi)
    (n : CsonValue S D) : frame.Holds (cson.attach frame r c (h ++ [n])) hi r (some c) := by
  have hlength : r < h.length := Nat.lt_of_lt_of_le hr hhi
  have hother : ∀ a, r < a → a < hi → (cson.attach frame r c (h ++ [n]))[a]? = h[a]? := fun a hra hahi => by
    rw [getElem?_attach_of_ne (Nat.ne_of_gt hra), List.getElem?_append_left (Nat.lt_of_lt_of_le hahi hhi)]
  cases frame with
  | array list =>
    obtain ⟨elems, hnode, hlist⟩ := hheld
    refine ⟨elems, ?_, StoredList.agree (Nat.le_refl hi) list hother hlist⟩
    have hnode' : (h ++ [n])[r]? = some (.ARRAY elems) := by
      rw [List.getElem?_append_left hlength, hnode, Option.toList_none, List.append_nil]
    simp only [cson.attach, cson_array_append, hnode', Option.toList_some]
    exact List.getElem?_set_self (by simpa using Nat.lt_succ_of_lt hlength)
  | object kvp key =>
    obtain ⟨members, hnode, hkvp⟩ := hheld
    obtain ⟨k, rfl⟩ := Option.isSome_iff_exists.mp hready
    refine ⟨members, ?_, StoredKvp.agree (Nat.le_refl hi) kvp hother hkvp⟩
    have hnode' : (h ++ [n])[r]? = some (.OBJECT members) := by
      rw [List.getElem?_append_left hlength, hnode]
      simp
    simp only [cson.attach, cson_kvp_list_append, hnode']
    exact List.getElem?_set_self (by simpa using Nat.lt_succ_of_lt hlength)

/-- A child that is finished becomes an element of the container it hangs in. -/
theorem Frame.Holds.close_child (hheld : frame.Holds h c r (some c)) (hready : frame.Ready) (hr : r < c)
    (hv : Stored h hi c v) : (frame.add v).Holds h hi r none := by
  have hle : c ≤ hi := Nat.le_of_lt hv.lt
  cases frame with
  | array list =>
    obtain ⟨elems, hnode, hlist⟩ := hheld
    refine ⟨elems ++ [c], by simpa using hnode, StoredList.append ?_ hr hv⟩
    exact StoredList.agree hle list (fun _ _ _ => rfl) hlist
  | object kvp key =>
    obtain ⟨members, hnode, hkvp⟩ := hheld
    obtain ⟨k, rfl⟩ := Option.isSome_iff_exists.mp hready
    refine ⟨members ++ [(k, c)], by simpa using hnode, StoredKvp.append ?_ hr hv⟩
    exact StoredKvp.agree hle kvp (fun _ _ _ => rfl) hkvp

theorem Frame.Holds.stored (hheld : frame.Holds h hi r none) (hr : r < hi) : Stored h hi r frame.close := by
  cases frame with
  | array list => simpa [Frame.close, Frame.Holds, Stored, hr] using hheld
  | object kvp key => simpa [Frame.close, Frame.Holds, Stored, hr] using hheld

/-- A new container is opened at the end of the innermost one. -/
theorem Spine.open (hspine : Spine h h.length none (r :: refs) (frame :: frames)) (hready : frame.Ready)
    {n : CsonValue S D} {opened : Frame S D}
    (hopened : ∀ h' : Heap S D, h'[h.length]? = some n → opened.Holds h' (h.length + 1) h.length none) :
    Spine (attach frame r h.length (h ++ [n])) (h.length + 1) none (h.length :: r :: refs) (opened :: frame :: frames) := by
  obtain ⟨hr, hheld, hrest⟩ := hspine
  have hbelow : ∀ a < r, (attach frame r h.length (h ++ [n]))[a]? = h[a]? := fun a ha => by
    rw [getElem?_attach_of_ne (Nat.ne_of_lt ha), List.getElem?_append_left (Nat.lt_trans ha hr)]
  refine ⟨Nat.lt_succ_self _, hopened _ ?_, hr, hheld.attach hready (Nat.le_refl _) hr n, hrest.agree hbelow⟩
  rw [getElem?_attach_of_ne (Nat.ne_of_gt hr)]
  exact List.getElem?_concat_length

/-- A value without elements is added to the innermost container. -/
theorem Spine.add (hspine : Spine h h.length none (r :: refs) (frame :: frames)) (hready : frame.Ready)
    {n : CsonValue S D} (hv : ∀ h' : Heap S D, h'[h.length]? = some n → Stored h' (h.length + 1) h.length v) :
    Spine (attach frame r h.length (h ++ [n])) (h.length + 1) none (r :: refs) (frame.add v :: frames) := by
  obtain ⟨hr, hheld, hrest⟩ := hspine
  have hbelow : ∀ a < r, (attach frame r h.length (h ++ [n]))[a]? = h[a]? := fun a ha => by
    rw [getElem?_attach_of_ne (Nat.ne_of_lt ha), List.getElem?_append_left (Nat.lt_trans ha hr)]
  have hnew : (attach frame r h.length (h ++ [n]))[h.length]? = some n := by
    rw [getElem?_attach_of_ne (Nat.ne_of_gt hr)]
    exact List.getElem?_concat_length
  exact ⟨Nat.lt_succ_of_lt hr, (hheld.attach hready (Nat.le_refl _) hr n).close_child hready hr (hv _ hnew),
    hrest.agree hbelow⟩

/-- The innermost container is finished. -/
theorem Spine.close {p : Ref} {outer : Frame S D}
    (hspine : Spine h hi none (r :: p :: refs) (frame :: outer :: frames)) (hready : outer.Ready) :
    Spine h hi none (p :: refs) (outer.add frame.close :: frames) := by
  obtain ⟨hr, hheld, hp, houter, hrest⟩ := hspine
  exact ⟨Nat.lt_trans hp hr, houter.close_child hready hp (hheld.stored hr), hrest⟩

end Spine

end cson
