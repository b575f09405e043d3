import PowerApi.Cson.Output
import PowerApi.Cson.Spelling

namespace cson

section Denotes

variable {S D : Type}

mutual

/-- The address stands for the value. -/
def Denotes (h : Heap S D) (r : Ref) : Value S D → Prop
  | .null => h[r]? = some .NULL
  | .bool b => h[r]? = some (.BOOL b)
  | .integer n => h[r]? = some (.INTEGER n)
  | .double d => h[r]? = some (.DOUBLE d)
  | .string s => h[r]? = some (.STRING s)
  | .array list => ∃ refs, h[r]? = some (.ARRAY refs) ∧ denotes_list h refs list
  | .object kvp => ∃ refs, h[r]? = some (.OBJECT refs) ∧ denotes_members h refs kvp

def denotes_list (h : Heap S D) : List Ref → List (Value S D) → Prop
  | [], [] => True
  | r :: refs, v :: list => Denotes h r v ∧ denotes_list h refs list
  | _, _ => False

def denotes_members (h : Heap S D) : List (S × Ref) → List (S × Value S D) → Prop
  | [], [] => True
  | (k', r) :: refs, (k, v) :: kvp => k' = k ∧ Denotes h r v ∧ denotes_members h refs kvp
  | _, _ => False

end

end Denotes

section Output

variable {D : Type} (fmt : OutputOpt) (lib : Doubles D)

mutual

/-- What is printed of a value, at the level of the containers around it. -/
def Value.output (level : ℕ) : Value Bytes D → Except Stop Bytes
  | .null => .ok (bytes ['n', 'u', 'l', 'l'])
  | .bool b => .ok (if b then bytes ['t', 'r', 'u', 'e'] else bytes ['f', 'a', 'l', 's', 'e'])
  | .integer n => .ok (cson_output_integer n)
  | .double d => cson_output_double lib d
  | .string s => cson_str_to_json fmt.escapeForwardSlashes s
  | .array list => cson_output_container fmt level 0x5B 0x5D (output_list (level + 1) list)
  | .object kvp => cson_output_container fmt level 0x7B 0x7D (output_members (level + 1) kvp)

def output_list (level : ℕ) : List (Value Bytes D) → List (Except Stop Bytes)
  | [] => []
  | v :: list => v.output level :: output_list level list

def output_members (level : ℕ) : List (Bytes × Value Bytes D) → List (Except Stop Bytes)
  | [] => []
  | (k, v) :: kvp => cson_output_member fmt k (v.output level) :: output_members level kvp

end

variable {fmt} {lib} {h : Heap Bytes D} {level : ℕ}

/-- Below the maximal depth no container is printed. -/
theorem container_too_deep {items : List (Except Stop Bytes)} {first last : UInt8} (hdeep : fmt.maxDepth.toNat < level) :
    cson_output_container fmt level first last items = failed .RangeError := if_pos hdeep

mutual

/-- What is printed of an address is what is printed of the value that it stands for. -/
theorem Denotes.output : {r : Ref} → (v : Value Bytes D) → Denotes h r v → {fuel level : ℕ} →
    fmt.maxDepth.toNat + 2 ≤ fuel + level → level ≤ fmt.maxDepth.toNat + 1 →
    cson_output_impl fmt lib h fuel level r = v.output fmt lib level
  | r, v, hv, 0, level, hfuel, hlevel => by omega
  | r, .null, hnode, fuel + 1, level, _, _ => by
    rw [Denotes] at hnode
    simp only [cson_output_impl, hnode, Value.output]
  | r, .bool _, hnode, fuel + 1, level, _, _ => by
    rw [Denotes] at hnode
    simp only [cson_output_impl, hnode, Value.output]
  | r, .integer _, hnode, fuel + 1, level, _, _ => by
    rw [Denotes] at hnode
    simp only [cson_output_impl, hnode, Value.output]
  | r, .double _, hnode, fuel + 1, level, _, _ => by
    rw [Denotes] at hnode
    simp only [cson_output_impl, hnode, Value.output]
  | r, .string _, hnode, fuel + 1, level, _, _ => by
    rw [Denotes] at hnode
    simp only [cson_output_impl, hnode, Value.output]
  | r, .array list, ⟨refs, hnode, hlist⟩, fuel + 1, level, hfuel, hlevel => by
    simp only [cson_output_impl, hnode, Value.output]
    by_cases hdeep : fmt.maxDepth.toNat < level
    · rw [container_too_deep hdeep, container_too_deep hdeep]
    · rw [denotes_list_output list hlist (by omega) (by omega)]
  | r, .object kvp, ⟨refs, hnode, hkvp⟩, fuel + 1, level, hfuel, hlevel => by
    simp only [cson_output_impl, hnode, Value.output]
    by_cases hdeep : fmt.maxDepth.toNat < level
    · rw [container_too_deep hdeep, container_too_deep hdeep]
    · rw [denotes_members_output kvp hkvp (by omega) (by omega)]

theorem denotes_list_output : {refs : List Ref} → (list : List (Value Bytes D)) → denotes_list h refs list →
    {fuel level : ℕ} → fmt.maxDepth.toNat + 2 ≤ fuel + level → level ≤ fmt.maxDepth.toNat + 1 →
    (refs.map fun v => cson_output_impl fmt lib h fuel level v) = output_list fmt lib level list
  | [], [], _, _, _, _, _ => by simp only [List.map_nil, output_list]
  | _ :: _, v :: list, ⟨hv, hlist⟩, fuel, level, hfuel, hlevel => by
    rw [List.map_cons, output_list, Denotes.output v hv hfuel hlevel, denotes_list_output list hlist hfuel hlevel]

theorem denotes_members_output : {refs : List (Bytes × Ref)} → (kvp : List (Bytes × Value Bytes D)) →
    denotes_members h refs kvp → {fuel level : ℕ} → fmt.maxDepth.toNat + 2 ≤ fuel + level → level ≤ fmt.maxDepth.toNat + 1 →
    (refs.map fun member => cson_output_member fmt member.1 (cson_output_impl fmt lib h fuel level member.2)) =
      output_members fmt lib level kvp
  | [], [], _, _, _, _, _ => by simp only [List.map_nil, output_members]
  | (_, _) :: _, (k, v) :: kvp, ⟨hk, hv, hkvp⟩, fuel, level, hfuel, hlevel => by
    rw [List.map_cons, output_members, Denotes.output v hv hfuel hlevel, denotes_members_output kvp hkvp hfuel hlevel, hk]

end

end Output

end cson
