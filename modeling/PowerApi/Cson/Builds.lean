import PowerApi.Cson.Parser
import PowerApi.Cson.Tokens

namespace cson

variable {D : Type}

/-- The key that waits for its value. -/
def Config.ckey (c : Config Bytes D) : Option Bytes :=
  if c.phase = .value ∨ c.phase = .colon then c.frames.head?.bind Frame.key else none

/-- The callback has built what the tokens read so far stand for. -/
structure Builds (p : Builder D) (c : Config Bytes D) : Prop where
  spine : Spine p.heap p.heap.length none p.stack c.frames
  node : c.frames ≠ [] → p.node = p.stack.head?
  root : c.frames ≠ [] → p.root = p.stack.getLast?
  unrooted : c.frames = [] → c.root = none → p.root = none
  rooted : ∀ v ∈ c.root, ∃ r, p.root = some r ∧ Stored p.heap p.heap.length r v
  ckey : p.ckey = c.ckey

section Attach

variable {p : Builder D} {frame : Frame Bytes D} {hi r val : Ref}

/-- A value is pushed by hanging it at the end of the innermost container. -/
theorem push_value_eq (hnode : p.node = some r) (hheld : frame.Holds p.heap hi r none) (hckey : p.ckey = frame.key)
    (hready : frame.Ready) :
    cson_parser_push_value val p = .ok { p with heap := attach frame r val p.heap, ckey := none } := by
  obtain ⟨heap, root, node, stack, ckey⟩ := p
  obtain rfl : node = some r := hnode
  obtain rfl : ckey = frame.key := hckey
  match frame, hready with
  | .array list, _ =>
    obtain ⟨refs, harray, -⟩ := hheld
    simp only [cson_parser_push_value, Frame.key, harray, attach]
  | .object kvp (some k), _ =>
    obtain ⟨refs, hobject, -⟩ := hheld
    simp only [cson_parser_push_value, cson_parser_set_key, Frame.key, hobject, attach]

end Attach

section Callback

variable {p : Builder D} {phase : Phase} {frame : Frame Bytes D} {frames : List (Frame Bytes D)}
  {root : Option (Value Bytes D)}

theorem Builds.head (h : Builds p ⟨phase, frame :: frames, root⟩) :
    ∃ r refs, p.stack = r :: refs ∧ p.node = some r ∧ r < p.heap.length ∧
      frame.Holds p.heap p.heap.length r none := by
  have hspine := h.spine
  have hnode := h.node (List.cons_ne_nil _ _)
  cases hstack : p.stack with
  | nil =>
    rw [hstack] at hspine
    exact hspine.elim
  | cons r refs =>
    rw [hstack] at hspine hnode
    exact ⟨r, refs, rfl, hnode, hspine.1, hspine.2.1⟩

/-- The key of a container that expects a value. -/
theorem Config.ckey_expects (hphase : phase = .value ∨ phase = .element ∧ frame.is_array) :
    Config.ckey ⟨phase, frame :: frames, root⟩ = frame.key := by
  rcases hphase with rfl | ⟨rfl, harray⟩
  · rfl
  · cases frame with
    | array => rfl
    | object => cases harray

theorem Frame.Holds.append {h : Heap Bytes D} {hi r : Ref} {child : Option Ref} (hheld : frame.Holds h hi r child)
    (hr : r < hi) (hhi : hi ≤ h.length) (n : CsonValue Bytes D) : frame.Holds (h ++ [n]) hi r child :=
  hheld.agree hr fun _ _ ha => List.getElem?_append_left (Nat.lt_of_lt_of_le ha hhi)

/-- A value of one token is pushed. -/
theorem Builds.push_scalar (h : Builds p ⟨phase, frame :: frames, none⟩) (hready : frame.Ready)
    (hphase : phase = .value ∨ phase = .element ∧ frame.is_array) {n : CsonValue Bytes D} {v : Value Bytes D}
    (hv : ∀ h' : Heap Bytes D, h'[p.heap.length]? = some n → Stored h' (p.heap.length + 1) p.heap.length v) :
    ∃ p', push_scalar n p = .ok p' ∧ Builds p' (Config.add v ⟨phase, frame :: frames, none⟩) := by
  obtain ⟨r, refs, hstack, hnode, hr, hheld⟩ := h.head
  have hkey : p.ckey = frame.key := h.ckey.trans (Config.ckey_expects hphase)
  have hroot := h.root (List.cons_ne_nil _ _)
  have hspine := h.spine
  rw [hstack] at hspine
  refine ⟨_, push_value_eq hnode (hheld.append hr (Nat.le_refl _) n) hkey hready, ?_⟩
  refine ⟨?_, fun _ => by rw [hnode, hstack]; rfl, fun _ => hroot, fun hnil => absurd hnil (List.cons_ne_nil _ _),
    by simp [Config.add], rfl⟩
  have hadded := hspine.add hready hv
  simp only [length_attach, List.length_append, List.length_singleton, hstack] at hadded ⊢
  exact hadded

/-- The first container is begun. -/
theorem Builds.begin_root (h : Builds p Config.initial) {n : CsonValue Bytes D} {opened : Frame Bytes D}
    {inside : Phase} (hkey : Config.ckey ⟨inside, [opened], none⟩ = none)
    (hopened : ∀ h' : Heap Bytes D, h'[p.heap.length]? = some n → opened.Holds h' (p.heap.length + 1) p.heap.length none) :
    ∃ p', begin_container n p = .ok p' ∧ Builds p' ⟨inside, [opened], none⟩ := by
  have hroot : p.root = none := h.unrooted rfl rfl
  have hstack : p.stack = [] := List.length_eq_zero_iff.mp h.spine.length_eq
  refine ⟨_, by simp only [begin_container, hroot]; rfl, ?_⟩
  refine ⟨?_, fun _ => rfl, fun _ => by rw [hstack]; rfl, fun hnil => absurd hnil (List.cons_ne_nil _ _), by simp,
    h.ckey.trans hkey.symm⟩
  simp only [hstack, cson_value_new, List.length_append, List.length_singleton]
  exact ⟨Nat.lt_succ_self _, hopened _ List.getElem?_concat_length, trivial⟩

/-- A container is begun within another one. -/
theorem Builds.begin_inner (h : Builds p ⟨phase, frame :: frames, none⟩) (hready : frame.Ready)
    (hphase : phase = .value ∨ phase = .element ∧ frame.is_array) {n : CsonValue Bytes D} {opened : Frame Bytes D}
    {inside : Phase} (hkey : Config.ckey ⟨inside, opened :: frame :: frames, none⟩ = none)
    (hopened : ∀ h' : Heap Bytes D, h'[p.heap.length]? = some n → opened.Holds h' (p.heap.length + 1) p.heap.length none) :
    ∃ p', begin_container n p = .ok p' ∧ Builds p' ⟨inside, opened :: frame :: frames, none⟩ := by
  obtain ⟨r, refs, hstack, hnode, hr, hheld⟩ := h.head
  have hcontained : p.ckey = frame.key := h.ckey.trans (Config.ckey_expects hphase)
  have hroot : p.root = some ((r :: refs).getLast (List.cons_ne_nil _ _)) := by
    rw [h.root (List.cons_ne_nil _ _), hstack, List.getLast?_eq_some_getLast (List.cons_ne_nil _ _)]
  have hspine := h.spine
  rw [hstack] at hspine
  have hpush := @push_value_eq D { p with heap := p.heap ++ [n], stack := p.heap.length :: p.stack } frame
    p.heap.length r p.heap.length hnode (hheld.append hr (Nat.le_refl _) n) hcontained hready
  simp only [hroot] at hpush
  refine ⟨_, by simp only [begin_container, hroot, cson_value_new]; rw [hpush], ?_⟩
  refine ⟨?_, fun _ => rfl, fun _ => ?_, fun hnil => absurd hnil (List.cons_ne_nil _ _), by simp, hkey.symm⟩
  · have hadded := hspine.open hready hopened
    simp only [length_attach, List.length_append, List.length_singleton, hstack] at hadded ⊢
    exact hadded
  · simp only [hstack]
    rw [List.getLast?_cons_cons, List.getLast?_eq_some_getLast (List.cons_ne_nil _ _)]

/-- The innermost container is ended. -/
theorem Builds.end_container (h : Builds p ⟨phase, frame :: frames, none⟩) (hready : ∀ f ∈ frames, f.Ready)
    (hkey : Config.ckey ⟨phase, frame :: frames, none⟩ = none) :
    ∃ p', end_container p = .ok p' ∧ Builds p' (Config.add frame.close ⟨phase, frames, none⟩) := by
  obtain ⟨r, refs, hstack, hnode, hr, hheld⟩ := h.head
  have hspine := h.spine
  have hroot := h.root (List.cons_ne_nil _ _)
  rw [hstack] at hspine hroot
  have hend : cson.end_container p = .ok { p with stack := refs, node := refs.head?.or p.root } := by
    simp only [cson.end_container, hstack, hnode, if_true]
  refine ⟨_, hend, ?_⟩
  cases frames with
  | nil =>
    obtain rfl : refs = [] := List.length_eq_zero_iff.mp hspine.2.2.length_eq
    refine ⟨trivial, fun hne => absurd rfl hne, fun hne => absurd rfl hne, by simp [Config.add], ?_,
      h.ckey.trans hkey⟩
    rintro v ⟨⟩
    exact ⟨r, hroot, hheld.stored hr⟩
  | cons outer frames =>
    cases refs with
    | nil => exact hspine.2.2.elim
    | cons q refs =>
      refine ⟨hspine.close (hready outer List.mem_cons_self), fun _ => rfl, fun _ => ?_,
        fun hnil => absurd hnil (List.cons_ne_nil _ _), by simp [Config.add], h.ckey.trans hkey⟩
      rw [hroot, List.getLast?_cons_cons]

/-- The key of the next member is read. -/
theorem Builds.key {kvp : List (Bytes × Value Bytes D)} (lib : Doubles D)
    (h : Builds p ⟨phase, .object kvp none :: frames, none⟩) (s : Bytes) :
    ∃ p', cson_parse_callback lib (.KEY s) p = .ok p' ∧
      Builds p' ⟨.colon, .object kvp (some (cson_new_string s)) :: frames, none⟩ := by
  have hckey : p.ckey = none := h.ckey.trans (by simp [Config.ckey, Frame.key])
  refine ⟨{ p with ckey := some (cson_new_string s) }, by simp only [cson_parse_callback, hckey, if_true], ?_⟩
  refine ⟨?_, fun _ => h.node (List.cons_ne_nil _ _), fun _ => h.root (List.cons_ne_nil _ _),
    fun hnil => absurd hnil (List.cons_ne_nil _ _), by simp, rfl⟩
  have hspine := h.spine
  obtain ⟨r, refs, hstack, -, -, -⟩ := h.head
  rw [hstack] at hspine ⊢
  exact ⟨hspine.1, hspine.2.1, hspine.2.2⟩

/-- What is built does not depend on where in a member or after a comma the text is. -/
theorem Builds.of_key {phase' : Phase} (h : Builds p ⟨phase, frames, none⟩)
    (hkey : Config.ckey ⟨phase', frames, none⟩ = Config.ckey ⟨phase, frames, none⟩) : Builds p ⟨phase', frames, none⟩ :=
  ⟨h.spine, h.node, h.root, h.unrooted, h.rooted, h.ckey.trans hkey.symm⟩

end Callback

end cson
