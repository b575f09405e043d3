import PowerApi.Pwrcmd.DocumentMemory

open cson

namespace pwrapi.pwrcmd

variable {D : Type}

/-! Members that are set -/

section Members

variable {m : Memory Bytes D} {c v : Ref} {kvp : List (Bytes × Ref)} {members : List (Bytes × Entry D)} {key : Bytes}
  {entry : Entry D} {cell : CsonValue Bytes D}

/-- What a change of the document at the address keeps. -/
structure Kept (m m' : Memory Bytes D) (c : Ref) : Prop where
  freed : ∀ x ∈ m.freed, x ∈ m'.freed
  cells : ∀ a < m.heap.length, a ≠ c → m'.heap[a]? = m.heap[a]?

theorem Kept.array {m' : Memory Bytes D} {a : Ref} {list : List Ref} (hkept : Kept m m' c) (hnode : m.heap[c]? = some (.OBJECT kvp))
    (hlist : m.heap[a]? = some (.ARRAY list)) : m'.heap[a]? = some (.ARRAY list) := by
  refine (hkept.cells a (List.getElem?_eq_some_iff.mp hlist).1 ?_).trans hlist
  rintro rfl
  cases hnode.symm.trans hlist

theorem find_kvp_replace {k : Bytes} (hne : k ≠ key) :
    ((kvp_replace key v kvp).find? fun member => member.1 = k) = kvp.find? fun member => member.1 = k := by
  induction kvp with
  | nil => rfl
  | cons a kvp ih =>
    rw [kvp_replace]
    split
    · next heq =>
      rw [List.find?_cons, List.find?_cons, decide_eq_false hne.symm, heq, decide_eq_false hne.symm]
    · rw [List.find?_cons, List.find?_cons, ih]

theorem find_snoc {k : Bytes} (hne : k ≠ key) :
    ((kvp ++ [(key, v)]).find? fun member => member.1 = k) = kvp.find? fun member => member.1 = k := by
  rw [List.find?_append, List.find?_cons, decide_eq_false hne.symm, List.find?_nil, Option.or_none]

theorem alloc_fst : (m.alloc cell).1 = m.heap.length := rfl

theorem getElem_alloc : (m.alloc cell).2.heap[m.heap.length]? = some cell := List.getElem?_concat_length

theorem Kept.alloc_put {kvp' : List (Bytes × Ref)} : Kept m ((m.alloc cell).2.put c (.OBJECT kvp')) c := by
  refine ⟨fun x hx => hx, fun a ha hne => ?_⟩
  rw [Memory.put, List.getElem?_set_ne hne.symm, Memory.alloc, List.getElem?_append_left ha]

namespace Stands

variable (hstands : Stands m c kvp members)

include hstands

theorem fresh_alloc : ¬ Owned (m.alloc cell).2.heap kvp m.heap.length ∧ m.heap.length ∉ (m.alloc cell).2.freed := by
  refine ⟨?_, hstands.fresh.2⟩
  rintro ⟨r, hr, hx⟩
  obtain ⟨entry, hat⟩ := hstands.holds.exists_at hr
  refine hstands.fresh.1 ⟨r, hr, ?_⟩
  rwa [Memory.alloc, List.getElem?_append_left hat.lt] at hx

/-- A key that there was not. -/
theorem set_new (cell : CsonValue Bytes D) (entry : Entry D) (hnone : (kvp.find? fun member => member.1 = key) = none) (hname : key ≠ [])
    (hat : entry.At (m.alloc cell).2.heap m.heap.length) (hleaf : ∀ list, cell = .ARRAY list → list = [])
    (htext : entry.is_messages → ∃ err, key = messages_key err) :
    cson_object_set c key m.heap.length (m.alloc cell).2 =
        some (.OK, (m.alloc cell).2.put c (.OBJECT (kvp ++ [(key, m.heap.length)]))) ∧
      Stands ((m.alloc cell).2.put c (.OBJECT (kvp ++ [(key, m.heap.length)]))) c (kvp ++ [(key, m.heap.length)])
        (members ++ [(key, entry)]) := by
  have hstands' := hstands.alloc cell
  constructor
  · rw [cson_object_set, if_neg hname, hstands'.get]
    dsimp only
    rw [hnone]
  · refine hstands'.snoc hat (fun list hlist => hleaf list ?_) hstands.fresh_alloc.1 hstands.fresh_alloc.2 htext
    exact Option.some.inj (getElem_alloc.symm.trans hlist)

/-- A value with a name, in the place of the one that had the name, if there was one. -/
theorem add (hname : key ≠ []) (hkey : ∀ err, key ≠ messages_key err) (hat : entry.At (m.alloc cell).2.heap m.heap.length)
    (hleaf : ∀ list, cell ≠ .ARRAY list) :
    ∃ m' kvp', cson_object_set c key m.heap.length (m.alloc cell).2 = some (.OK, m') ∧
      Stands m' c kvp' (put key (fun _ => entry) members) ∧ Kept m m' c ∧
      ∀ k ≠ key, (kvp'.find? fun member => member.1 = k) = kvp.find? fun member => member.1 = k := by
  have hstands' := hstands.alloc cell
  have hcell : ∀ list, (m.alloc cell).2.heap[m.heap.length]? ≠ some (.ARRAY list) := fun list hlist =>
    hleaf list (Option.some.inj (getElem_alloc.symm.trans hlist))
  rcases hfind : kvp.find? fun member => member.1 = key with _ | found
  · have htext : entry.is_messages → ∃ err, key = messages_key err := fun htrue => by
      cases entry with
      | messages list =>
        obtain ⟨refs, hrefs, -⟩ := hat
        exact absurd hrefs (hcell refs)
      | _ => cases htrue
    obtain ⟨hset, hnew⟩ := hstands.set_new cell entry hfind hname hat (fun list hlist => absurd hlist (hleaf list)) htext
    refine ⟨_, kvp ++ [(key, m.heap.length)], hset, ?_, Kept.alloc_put, fun k hne => find_snoc hne⟩
    rwa [put_of_none (hstands.holds.find_none.mp hfind)]
  · obtain ⟨m', hfree, hfreed, hheap, hnew⟩ := hstands'.replace hfind hat hcell hstands.fresh_alloc.1 hstands.fresh_alloc.2 hkey
    have hfound : found.2 ∈ kvp.map Prod.snd := List.mem_map_of_mem (List.mem_of_find?_eq_some hfind)
    have hold : found.2 ≠ m.heap.length := by
      intro heq
      exact hstands.fresh.1 ⟨_, hfound, .inl heq.symm⟩
    refine ⟨_, _, ?_, hnew, ⟨hfreed, fun a ha hne => ?_⟩, fun k hne => find_kvp_replace hne⟩
    · rw [cson_object_set, if_neg hname, hstands'.get]
      dsimp only
      rw [hfind]
      dsimp only
      rw [if_neg hold, hfree]
      rfl
    · rw [Memory.put, hheap, List.getElem?_set_ne hne.symm, Memory.alloc, List.getElem?_append_left ha]

/-- A member that is `null` where there is none yet. -/
theorem default_null (hname : key ≠ []) :
    ∃ m' kvp', Output.default_null c key m = some m' ∧ Stands m' c kvp' (or_null key members) ∧ (∀ x ∈ m.freed, x ∈ m'.freed) ∧
      (∀ r ∈ kvp.map Prod.snd, r ∈ kvp'.map Prod.snd) := by
  rcases hfind : kvp.find? fun member => member.1 = key with _ | found
  · obtain ⟨hset, hnew⟩ := hstands.set_new .NULL .null hfind hname getElem_alloc nofun nofun
    refine ⟨(m.alloc .NULL).2.put c (.OBJECT (kvp ++ [(key, m.heap.length)])), kvp ++ [(key, m.heap.length)], ?_, ?_,
      fun x hx => hx, fun r hr => ?_⟩
    · rw [Output.default_null, cson_object_get, hstands.get]
      dsimp only
      rw [hfind]
      dsimp only [Option.map_none]
      exact congrArg (Option.map Prod.snd) hset
    · rw [or_null, hstands.holds.find_none.mp hfind]
      exact hnew
    · rw [List.map_append]
      exact List.mem_append_left _ hr
  · refine ⟨m, kvp, ?_, ?_, fun x hx => hx, fun r hr => hr⟩
    · rw [Output.default_null, cson_object_get, hstands.get]
      dsimp only
      rw [hfind]
      rfl
    · rw [or_null, if_pos]
      · exact hstands
      · rw [← Bool.not_eq_false, ← hstands.holds.find_none, hfind]
        nofun

end Stands

end Members

/-! The output and the session -/

namespace Output

variable (o : Output D) (err err' : Bool) (a : Ref)

@[simp] theorem set_msgs_memory : (o.set_msgs err a).memory = o.memory := by cases err <;> rfl

@[simp] theorem set_msgs_cout : (o.set_msgs err a).cout = o.cout := by cases err <;> rfl

@[simp] theorem set_msgs_cson_ret_code : (o.set_msgs err a).cson_ret_code = o.cson_ret_code := by cases err <;> rfl

@[simp] theorem set_msgs_num_objects : (o.set_msgs err a).num_objects = o.num_objects := by cases err <;> rfl

@[simp] theorem set_msgs_printed : (o.set_msgs err a).printed = o.printed := by cases err <;> rfl

@[simp] theorem set_msgs_nmsgs : (o.set_msgs err a).nmsgs err' = o.nmsgs err' := by cases err <;> rfl

@[simp] theorem set_msgs_msgs : (o.set_msgs err a).msgs err' = if err' = err then some a else o.msgs err' := by
  cases err <;> cases err' <;> rfl

@[simp] theorem count_msg_memory : (o.count_msg err).memory = o.memory := by cases err <;> rfl

@[simp] theorem count_msg_cout : (o.count_msg err).cout = o.cout := by cases err <;> rfl

@[simp] theorem count_msg_cson_ret_code : (o.count_msg err).cson_ret_code = o.cson_ret_code := by cases err <;> rfl

@[simp] theorem count_msg_num_objects : (o.count_msg err).num_objects = o.num_objects := by cases err <;> rfl

@[simp] theorem count_msg_printed : (o.count_msg err).printed = o.printed := by cases err <;> rfl

@[simp] theorem count_msg_msgs : (o.count_msg err).msgs err' = o.msgs err' := by cases err <;> rfl

@[simp] theorem count_msg_nmsgs : (o.count_msg err).nmsgs err' = if err' = err then o.nmsgs err' + 1 else o.nmsgs err' := by
  cases err <;> cases err' <;> rfl

end Output

/-- What is known of the pointer to messages: there is none, or it is to an earlier document and what it
points to was freed, or it is to the array of this document. -/
inductive Tracked (o : Output D) (kvp : List (Bytes × Ref)) (err : Bool) : Bool → Prop
  | absent (hmsgs : o.msgs err = none) (hnone : (kvp.find? fun member => member.1 = messages_key err) = none)
      (hzero : o.nmsgs err = 0) : Tracked o kvp err false
  | stale {a : Ref} (hmsgs : o.msgs err = some a) (hnone : (kvp.find? fun member => member.1 = messages_key err) = none)
      (hfreed : a ∈ o.memory.freed) : Tracked o kvp err true
  | current {a : Ref} {list : List Ref} (hmsgs : o.msgs err = some a)
      (hfind : (kvp.find? fun member => member.1 = messages_key err) = some (messages_key err, a))
      (hlist : o.memory.heap[a]? = some (.ARRAY list)) (hlength : list.length = o.nmsgs err) : Tracked o kvp err false

/-- The document is in memory, if there is one. -/
inductive Made (o : Output D) (kvp : List (Bytes × Ref)) : Option (Document D) → Prop
  | none (hcout : o.cout = none) (hkvp : kvp = []) (hfreed : ∀ x ∈ o.memory.freed, x < o.memory.heap.length) : Made o kvp none
  | some {c : Ref} {d : Document D} (hcout : o.cout = some c) (hstands : Stands o.memory c kvp d.members)
      (hcode : o.cson_ret_code = d.code) (hobjects : o.num_objects = d.objects)
      (hret : (kvp.find? fun member => member.1 = JSON_RET_CODE_STR) = none) : Made o kvp (some d)

/-- The output is that of the session. -/
structure Sound (o : Output D) (kvp : List (Bytes × Ref)) (s : Session D) : Prop where
  made : Made o kvp s.document
  tracked : ∀ err, Tracked o kvp err (s.stale err)
  printed : o.printed = s.printed

section Steps

variable {o : Output D} {kvp : List (Bytes × Ref)} {s : Session D} {d : Document D} {c : Ref} {err : Bool}

/-- What becomes of a pointer when the document is freed. -/
theorem Tracked.free {stale : Bool} {members : List (Bytes × Entry D)} (htracked : Tracked o kvp err stale)
    (hholds : Holds o.memory.heap kvp members) {o' : Output D} (hmsgs : o'.msgs err = o.msgs err)
    (hnum : o.msgs err = none → o'.nmsgs err = 0) (hfreed : ∀ x ∈ o.memory.freed, x ∈ o'.memory.freed)
    (hmembers : ∀ r ∈ kvp.map Prod.snd, r ∈ o'.memory.freed) :
    Tracked o' [] err (stale || members.any fun member => member.1 = messages_key err) := by
  cases htracked with
  | absent hnone hfind hzero =>
    rw [hholds.find_none.mp hfind]
    exact .absent (hmsgs.trans hnone) rfl (hnum hnone)
  | stale hsome hfind hold => exact .stale (hmsgs.trans hsome) rfl (hfreed _ hold)
  | current hsome hfind hlist hlength =>
    have hany : (members.any fun member => member.1 = messages_key err) = true := by
      rw [← Bool.not_eq_false, ← hholds.find_none, hfind]
      nofun
    rw [hany]
    exact .stale (hmsgs.trans hsome) rfl (hmembers _ (List.mem_map_of_mem (List.mem_of_find?_eq_some hfind)))

/-- A pointer to an array that does not change. -/
theorem Tracked.keep {stale : Bool} {o' : Output D} {kvp' : List (Bytes × Ref)} (htracked : Tracked o kvp err stale)
    (hfreed : ∀ x ∈ o.memory.freed, x ∈ o'.memory.freed)
    (hcells : ∀ a list, (kvp.find? fun member => member.1 = messages_key err) = some (messages_key err, a) →
      o.memory.heap[a]? = some (.ARRAY list) → o'.memory.heap[a]? = some (.ARRAY list))
    (hmsgs : o'.msgs err = o.msgs err) (hnum : o'.nmsgs err = o.nmsgs err)
    (hfind : (kvp'.find? fun member => member.1 = messages_key err) = kvp.find? fun member => member.1 = messages_key err) :
    Tracked o' kvp' err stale := by
  cases htracked with
  | absent hnone hold hzero => exact .absent (hmsgs.trans hnone) (hfind.trans hold) (hnum.trans hzero)
  | stale hsome hold hfree => exact .stale (hmsgs.trans hsome) (hfind.trans hold) (hfreed _ hfree)
  | current hsome hold hlist hlength =>
    exact .current (hmsgs.trans hsome) (hfind.trans hold) (hcells _ _ hold hlist) (hlength.trans hnum.symm)

theorem Tracked.zero {stale : Bool} (htracked : Tracked o kvp err stale) (hnone : o.msgs err = none) : o.nmsgs err = 0 := by
  cases htracked with
  | absent _ _ hzero => exact hzero
  | stale hsome _ _ => cases hnone.symm.trans hsome
  | current hsome _ _ _ => cases hnone.symm.trans hsome

/-- A new document has no messages. -/
theorem Tracked.reset {stale : Bool} (htracked : Tracked o [] err stale) {o' : Output D} (hmsgs : o'.msgs err = o.msgs err)
    (hnum : o'.nmsgs err = 0) (hfreed : o'.memory.freed = o.memory.freed) : Tracked o' [] err stale := by
  cases htracked with
  | absent hnone hfind hzero => exact .absent (hmsgs.trans hnone) hfind hnum
  | stale hsome hfind hold => exact .stale (hmsgs.trans hsome) hfind (hfreed ▸ hold)
  | current hsome hfind hlist hlength => cases hfind

theorem Session.close_of_none (hdocument : s.document = none) : s.close = s := by
  rw [close, hdocument]

theorem Session.close_of_some (hdocument : s.document = some d) :
    s.close = { s with document := none
                       stale := fun err => s.stale err || d.members.any fun member => member.1 = messages_key err } := by
  rw [close, hdocument]

theorem Session.begin_of_some (hdocument : s.document = some d) {printed : List Printed} :
    Session.begin { s with printed } =
      { document := some {}
        stale := fun err => s.stale err || d.members.any fun member => member.1 = messages_key err
        printed } := by
  rw [begin, close_of_some (s := { s with printed }) hdocument]

theorem Session.close_document : s.close.document = none := by
  rw [close]
  split
  · assumption
  · rfl

/-- The document is freed, or there was none. -/
theorem Sound.disable (hsound : Sound o kvp s) :
    ∃ o', o.json_disable_output = some o' ∧ Sound o' [] s.close := by
  obtain ⟨hmade, htracked, hprinted⟩ := hsound
  rcases hdocument : s.document with _ | d
  · rw [hdocument] at hmade
    cases hmade with
    | none hcout hkvp hfreed =>
      subst hkvp
      refine ⟨o, by rw [Output.json_disable_output, hcout], ?_⟩
      rw [Session.close_of_none hdocument]
      exact ⟨hdocument ▸ .none hcout rfl hfreed, htracked, hprinted⟩
  · rw [hdocument] at hmade
    cases hmade with
    | @some c _ hcout hstands hcode hobjects hret =>
      obtain ⟨m', hfree, hheap, hlt, hmembers, hfreed⟩ := hstands.free
      rw [Session.close_of_some hdocument]
      refine ⟨{ o with memory := m', cout := none }, ?_, .none rfl rfl hlt, fun err => ?_, hprinted⟩
      · rw [Output.json_disable_output, hcout]
        dsimp only
        rw [hfree]
        rfl
      · exact (htracked err).free hstands.holds rfl (htracked err).zero hfreed hmembers

/-- A new document. -/
theorem Sound.enable (hsound : Sound o kvp s) :
    ∃ o', o.json_enable_output = some o' ∧ Sound o' [] s.begin := by
  obtain ⟨o', hdisable, hmade, htracked, hprinted⟩ := hsound.disable
  rw [Session.close_document] at hmade
  cases hmade with
  | none hcout _ hfreed =>
    refine ⟨{ o' with memory := (o'.memory.alloc (.OBJECT [])).2, cout := some o'.memory.heap.length, num_cmsgs := 0,
                      num_cerrmsgs := 0, num_objects := 0, cson_ret_code := 0 }, ?_, ?_, fun err => ?_, hprinted⟩
    · rw [Output.json_enable_output, hdisable]
      rfl
    · exact .some rfl (Stands.new hfreed) rfl rfl rfl
    · exact (htracked err).reset rfl (by cases err <;> rfl) rfl

theorem Sound.set_ret_code (hsound : Sound o kvp s) (hdocument : s.document = some d) (ret_code : Int64) :
    Sound (o.json_set_ret_code ret_code) kvp
      { s with document := some { d with code := if d.code = 0 then ret_code.toInt32 else d.code } } := by
  obtain ⟨hmade, htracked, hprinted⟩ := hsound
  rw [hdocument] at hmade
  cases hmade with
  | some hcout hstands hcode hobjects hret =>
    have henabled : o.json_is_enabled = true := by rw [Output.json_is_enabled, hcout]; rfl
    by_cases hzero : d.code = 0
    · have hset : o.json_set_ret_code ret_code = { o with cson_ret_code := ret_code.toInt32 } := by
        rw [Output.json_set_ret_code, henabled, hcode, hzero]
        rfl
      rw [hset, if_pos hzero]
      exact ⟨.some hcout hstands rfl hobjects hret, fun err => (htracked err).keep (fun _ hx => hx) (fun _ _ _ hlist => hlist) rfl rfl rfl, hprinted⟩
    · have hset : o.json_set_ret_code ret_code = o := by
        rw [Output.json_set_ret_code, hcode, decide_eq_false hzero, Bool.and_false, if_neg Bool.false_ne_true]
      rw [hset, if_neg hzero]
      exact ⟨.some hcout hstands hcode hobjects hret, htracked, hprinted⟩

/-- A document that is full, with what the flush adds, is freed for a new one. -/
theorem enable_of_stands {members : List (Bytes × Entry D)} (stale : Bool → Bool) (hcout : o.cout = some c)
    (hstands : Stands o.memory c kvp members)
    (htracked : ∀ err, ∀ o' : Output D, o'.msgs err = o.msgs err → o'.nmsgs err = 0 →
      (∀ x ∈ o.memory.freed, x ∈ o'.memory.freed) → (∀ r ∈ kvp.map Prod.snd, r ∈ o'.memory.freed) → Tracked o' [] err (stale err)) :
    ∃ o', o.json_enable_output = some o' ∧ Sound o' [] { document := some {}, stale, printed := o.printed } := by
  obtain ⟨m', hfree, hheap, hlt, hmembers, hfreed⟩ := hstands.free
  refine ⟨{ o with memory := (m'.alloc (.OBJECT [])).2, cout := some m'.heap.length, num_cmsgs := 0, num_cerrmsgs := 0,
                   num_objects := 0, cson_ret_code := 0 }, ?_, .some rfl (Stands.new hlt) rfl rfl rfl, fun err => ?_, rfl⟩
  · rw [Output.json_enable_output, Output.json_disable_output, hcout]
    dsimp only
    rw [hfree]
    rfl
  · exact htracked err _ rfl (by cases err <;> rfl) hfreed hmembers

theorem JSON_keys_ne : JSON_RET_CODE_STR ≠ [] ∧ JSON_MSGS_STR ≠ [] ∧ JSON_ERR_MSGS_STR ≠ [] ∧
    ∀ err, messages_key err ≠ JSON_RET_CODE_STR := by
  refine ⟨by decide, by decide, by decide, fun err => ?_⟩
  cases err <;> decide

/-- What the flush prints is the document, and the next one is empty. -/
theorem Sound.flush (hsound : Sound o kvp s) (lib : Doubles D) (hdocument : s.document = some d) {force : Bool}
    (hforce : (force || 0 < d.objects) = true) :
    ∃ o', o.json_flush_output lib force = some o' ∧ Sound o' []
      (Session.begin { s with printed := s.printed ++ [.document (do return (← d.value.output Output.opts lib 0) ++ [0x0A])] }) := by
  obtain ⟨hmade, htracked, hprinted⟩ := hsound
  rw [hdocument] at hmade
  cases hmade with
  | @some c _ hcout hstands hcode hobjects hret =>
    obtain ⟨hset, hstands₁⟩ := hstands.set_new (.INTEGER o.cson_ret_code.toInt64) (.integer d.code.toInt64) hret
      JSON_keys_ne.1 (hcode ▸ getElem_alloc) nofun nofun
    obtain ⟨m₂, kvp₂, hmsgs, hstands₂, hfreed₂, hkept₂⟩ := hstands₁.default_null JSON_keys_ne.2.1
    obtain ⟨m₃, kvp₃, herrmsgs, hstands₃, hfreed₃, hkept₃⟩ := hstands₂.default_null JSON_keys_ne.2.2.1
    have hdenotes : Denotes m₃.heap c d.value := ⟨kvp₃, hstands₃.node, hstands₃.holds.denotes⟩
    have hprint : cson_output Output.opts lib m₃.heap c = do return (← d.value.output Output.opts lib 0) ++ [0x0A] := by
      rw [cson_output, hdenotes.output _ (by omega) (by omega)]
      rfl
    have hmembers : ∀ r ∈ kvp.map Prod.snd, r ∈ kvp₃.map Prod.snd := fun r hr =>
      hkept₃ r (hkept₂ r (by rw [List.map_append]; exact List.mem_append_left _ hr))
    obtain ⟨o', henable, hsound'⟩ := enable_of_stands
      (o := { o with memory := m₃, printed := o.printed ++ [.document (cson_output Output.opts lib m₃.heap c)] })
      (fun err => s.stale err || d.members.any fun member => member.1 = messages_key err) hcout hstands₃
      fun err o' hmsgs hnum hfreed hmembers' => (htracked err).free hstands.holds hmsgs (fun _ => hnum)
        (fun x hx => hfreed x (hfreed₃ x (hfreed₂ x hx))) fun r hr => hmembers' r (hmembers r hr)
    refine ⟨o', ?_, ?_⟩
    · rw [Output.json_flush_output, hcout]
      dsimp only
      rw [hobjects.symm] at hforce
      rw [if_pos hforce, alloc_fst, hset]
      dsimp only [Option.bind_eq_bind, Option.bind_some]
      rw [hmsgs, Option.bind_some, herrmsgs, Option.bind_some, ← hcout, henable]
    · rw [hprint, hprinted] at hsound'
      rw [Session.begin_of_some hdocument]
      exact hsound'

theorem put_append_of_none {members : List (Bytes × Entry D)} {key : Bytes} {f : Option (Entry D) → Entry D} {entry : Entry D}
    (hnone : (members.any fun member => member.1 = key) = false) :
    put key f (members ++ [(key, entry)]) = members ++ [(key, f (some entry))] := by
  induction members with
  | nil => rw [List.nil_append, put, if_pos rfl]; rfl
  | cons member members ih =>
    rw [List.any_cons, Bool.or_eq_false_iff, decide_eq_false_iff_not] at hnone
    rw [List.cons_append, put, if_neg hnone.1, ih hnone.2]
    rfl

theorem messages_key_mem : messages_key err ∈ reserved := by cases err <;> decide

theorem messages_key_inj {err err' : Bool} (heq : messages_key err = messages_key err') : err = err' := by
  cases err <;> cases err' <;> first | rfl | exact absurd heq (by decide)

/-- The array is there, or it is made, and is that of the document. -/
theorem Sound.messages (hsound : Sound o kvp s) (hdocument : s.document = some d) (hcout : o.cout = some c)
    (hstale : s.stale err = false) :
    ∃ a o' kvp' members', o.messages err c = some (a, o') ∧
      Sound o' kvp' { s with document := some { d with members := members' } } ∧ o'.cout = some c ∧ o'.msgs err = some a ∧
      ∀ text, put (messages_key err) (add_message text) members' = put (messages_key err) (add_message text) d.members := by
  obtain ⟨hmade, htracked, hprinted⟩ := hsound
  have hpointer := htracked err
  rw [hdocument] at hmade
  rw [hstale] at hpointer
  cases hmade with
  | @some c' _ hcout' hstands hcode hobjects hret =>
    obtain rfl := Option.some.inj (hcout'.symm.trans hcout)
    cases hpointer with
    | current hsome hfind hlist hlength =>
      refine ⟨_, o, kvp, d.members, ?_, ⟨.some hcout' hstands hcode hobjects hret, htracked, hprinted⟩, hcout', hsome, fun _ => rfl⟩
      rw [Output.messages, hsome]
    | absent hnone hfind hzero =>
      have hname : messages_key err ≠ [] := by cases err <;> decide
      obtain ⟨hset, hnew⟩ := hstands.set_new (.ARRAY []) (.messages []) hfind hname ⟨[], getElem_alloc, .nil⟩
        (fun list heq => (CsonValue.ARRAY.inj heq).symm) fun _ => ⟨err, rfl⟩
      have habsent := hstands.holds.find_none.mp hfind
      have hkept : Kept o.memory ((o.memory.alloc (.ARRAY [])).2.put c' (.OBJECT (kvp ++ [(messages_key err, o.memory.heap.length)]))) c' :=
        Kept.alloc_put
      have hlist : ((o.memory.alloc (.ARRAY [])).2.put c' (.OBJECT (kvp ++ [(messages_key err, o.memory.heap.length)]))).heap[o.memory.heap.length]? =
          some (.ARRAY []) := by
        have hlt := (List.getElem?_eq_some_iff.mp hstands.node).1
        rw [Memory.put, List.getElem?_set_ne hlt.ne, getElem_alloc]
      generalize (o.memory.alloc (.ARRAY [])).2.put c' (.OBJECT (kvp ++ [(messages_key err, o.memory.heap.length)])) = m'
        at hset hnew hkept hlist
      have hret' : ((kvp ++ [(messages_key err, o.memory.heap.length)]).find? fun member => member.1 = JSON_RET_CODE_STR) = none :=
        (find_snoc (JSON_keys_ne.2.2.2 err).symm).trans hret
      have hfound : ((kvp ++ [(messages_key err, o.memory.heap.length)]).find? fun member => member.1 = messages_key err) =
          some (messages_key err, o.memory.heap.length) := by
        rw [List.find?_append, hfind, Option.none_or, List.find?_cons, decide_eq_true rfl]
      refine ⟨o.memory.heap.length, { o with memory := m' }.set_msgs err o.memory.heap.length,
        kvp ++ [(messages_key err, o.memory.heap.length)],
        d.members ++ [(messages_key err, .messages [])], ?_, ⟨?_, fun err' => ?_, ?_⟩, ?_, ?_, fun text => ?_⟩
      · rw [Output.messages, hnone]
        dsimp only
        rw [alloc_fst, ← messages_key, hset]
        rfl
      · exact .some (by simpa using hcout') (by simpa using hnew) (by simpa using hcode) (by simpa using hobjects) hret'
      · by_cases herr : err' = err
        · subst herr
          rw [hstale]
          refine .current (by simp) hfound (by simpa using hlist) ?_
          rw [Output.set_msgs_nmsgs]
          exact hzero.symm
        · refine (htracked err').keep ?_ ?_ ?_ ?_ (find_snoc fun heq => herr (messages_key_inj heq))
          · rw [Output.set_msgs_memory]
            exact hkept.freed
          · rw [Output.set_msgs_memory]
            exact fun _ _ _ hold => hkept.array hstands.node hold
          · rw [Output.set_msgs_msgs, if_neg herr]
            rfl
          · rw [Output.set_msgs_nmsgs]
            rfl
      · simpa using hprinted
      · simpa using hcout'
      · simp
      · rw [put_append_of_none habsent, put_of_none habsent]
        rfl

/-- A call on the output is the call on the session: a result for a result, and none for none. -/
def Matches (result : Option (Output D)) (result' : Option (Session D)) : Prop :=
  Option.Rel (fun o s => ∃ kvp, Sound o kvp s) result result'

/-- Without a document the call prints a line. -/
theorem Sound.line (hsound : Sound o kvp s) (hdocument : s.document = none) (lines : List Printed) :
    Sound { o with printed := o.printed ++ lines } kvp { s with printed := s.printed ++ lines } := by
  obtain ⟨hmade, htracked, hprinted⟩ := hsound
  refine ⟨?_, fun err => (htracked err).keep (fun _ hx => hx) (fun _ _ _ hlist => hlist) rfl rfl rfl,
    congrArg (fun printed => printed ++ lines) hprinted⟩
  rw [hdocument] at hmade
  change Made _ kvp s.document
  rw [hdocument]
  cases hmade with
  | none hcout hkvp hfreed => exact .none hcout hkvp hfreed

theorem Sound.cout_none (hsound : Sound o kvp s) (hdocument : s.document = none) : o.cout = none := by
  have hmade := hsound.made
  rw [hdocument] at hmade
  cases hmade with
  | none hcout _ _ => exact hcout

theorem Sound.cout_some (hsound : Sound o kvp s) (hdocument : s.document = some d) : ∃ c, o.cout = some c := by
  have hmade := hsound.made
  rw [hdocument] at hmade
  cases hmade with
  | some hcout _ _ _ _ => exact ⟨_, hcout⟩

theorem Sound.num_objects (hsound : Sound o kvp s) (hdocument : s.document = some d) : o.num_objects = d.objects := by
  have hmade := hsound.made
  rw [hdocument] at hmade
  cases hmade with
  | some _ _ _ hobjects _ => exact hobjects

/-- An error leaves its code, if it is the first. -/
theorem Sound.record (hsound : Sound o kvp s) (hdocument : s.document = some d) (errcode : Int32) :
    Sound (if decide (errcode ≠ 0) = true then o.json_set_ret_code errcode.toInt64 else o) kvp
      { s with document := some { d with code := if d.code = 0 then errcode else d.code } } := by
  by_cases herr : errcode = 0
  · have hcode : (if d.code = 0 then errcode else d.code) = d.code := by
      split
      · next hzero => rw [herr, hzero]
      · rfl
    rw [hcode, if_neg (by simp [herr])]
    have hsame : { s with document := some { d with code := d.code } } = s := by rw [← hdocument]
    rw [hsame]
    exact hsound
  · rw [if_pos (by simp [herr])]
    have hset := hsound.set_ret_code hdocument errcode.toInt64
    rwa [Int32.toInt32_toInt64] at hset

theorem json_set_ret_code_cout (ret_code : Int64) : (o.json_set_ret_code ret_code).cout = o.cout := by
  rw [Output.json_set_ret_code]
  split <;> rfl

/-- One more message in the array that the pointer is to. -/
theorem Sound.append {a : Ref} (hsound : Sound o kvp s) (hdocument : s.document = some d) (hstale : s.stale err = false)
    (hmsgs : o.msgs err = some a) (text : Bytes) :
    ∃ m', cson_array_set a (o.nmsgs err) o.memory.heap.length (o.memory.alloc (.STRING text)).2 = some (.OK, m') ∧
      Sound ({ o with memory := m', num_objects := o.num_objects + 1 }.count_msg err) kvp
        { s with document := some { d with members := put (messages_key err) (add_message text) d.members
                                           objects := d.objects + 1 } } := by
  obtain ⟨hmade, htracked, hprinted⟩ := hsound
  have hpointer := htracked err
  rw [hdocument] at hmade
  rw [hstale] at hpointer
  cases hmade with
  | @some c _ hcout hstands hcode hobjects hret =>
    cases hpointer with
    | absent hnone hfind hzero => cases hnone.symm.trans hmsgs
    | @current a' list hsome hfind hlist hlength =>
      obtain rfl := Option.some.inj (hsome.symm.trans hmsgs)
      have halloc : ∀ b refs, o.memory.heap[b]? = some (CsonValue.ARRAY refs) →
          (o.memory.alloc (.STRING text)).2.heap[b]? = some (CsonValue.ARRAY refs) := fun b refs hb =>
        (List.getElem?_append_left (List.getElem?_eq_some_iff.mp hb).1).trans hb
      obtain ⟨hset, hstands'⟩ := (hstands.alloc (.STRING text)).message hfind (halloc _ _ hlist) getElem_alloc
        hstands.fresh_alloc.1 hstands.fresh_alloc.2
      rw [hlength] at hset
      refine ⟨_, hset, ⟨?_, fun err' => ?_, ?_⟩⟩
      · refine .some (c := c) ?_ ?_ ?_ ?_ hret
        · rw [Output.count_msg_cout]
          exact hcout
        · rw [Output.count_msg_memory]
          exact hstands'
        · rw [Output.count_msg_cson_ret_code]
          exact hcode
        · rw [Output.count_msg_num_objects]
          exact congrArg Nat.succ hobjects
      · by_cases herr : err' = err
        · subst herr
          rw [hstale]
          refine .current ?_ hfind (?_ : _ = some (CsonValue.ARRAY (list ++ [o.memory.heap.length]))) ?_
          · rw [Output.count_msg_msgs]
            exact hsome
          · rw [Output.count_msg_memory]
            exact List.getElem?_set_self (List.getElem?_eq_some_iff.mp (halloc _ _ hlist)).1
          · rw [Output.count_msg_nmsgs, if_pos rfl, List.length_append, hlength]
            rfl
        · refine (htracked err').keep ?_ ?_ ?_ ?_ rfl
          · rw [Output.count_msg_memory]
            exact fun x hx => hx
          · rw [Output.count_msg_memory]
            intro b refs hb hrefs
            -- Two keys have two addresses.
            have hne : a' ≠ b := by
              rintro rfl
              have heq := List.inj_on_of_nodup_map hstands.nodup (List.mem_of_find?_eq_some hfind) (List.mem_of_find?_eq_some hb) rfl
              exact herr (messages_key_inj (congrArg Prod.fst heq).symm)
            rw [Memory.put, List.getElem?_set_ne hne]
            exact halloc b refs hrefs
          · rw [Output.count_msg_msgs]
            rfl
          · rw [Output.count_msg_nmsgs, if_neg herr]
            rfl
      · rw [Output.count_msg_printed]
        exact hprinted

theorem Sound.print {lib : Doubles D} (hsound : Sound o kvp s) (func : Bytes) (line : ℕ) (errcode : Int32) (text : Bytes) :
    Matches (o.json_print func line errcode text) (s.step lib (.print func line errcode text)) := by
  rcases hdocument : s.document with _ | d
  · rw [Output.json_print, hsound.cout_none hdocument, Session.step, hdocument]
    have hline := hsound.line hdocument [.line (decide (errcode ≠ 0)) (Output.message func line errcode text ++ [0x0A])]
    rw [hsound.cout_none hdocument, hdocument] at hline
    exact .some ⟨kvp, hline⟩
  · obtain ⟨c, hcout⟩ := hsound.cout_some hdocument
    have hrecord := hsound.record hdocument errcode
    have hcout' : (if decide (errcode ≠ 0) = true then o.json_set_ret_code errcode.toInt64 else o).cout = some c := by
      split
      · rw [json_set_ret_code_cout, hcout]
      · exact hcout
    rw [Output.json_print, hcout, Session.step, hdocument]
    dsimp only
    generalize (if decide (errcode ≠ 0) = true then o.json_set_ret_code errcode.toInt64 else o) = o₁ at hrecord hcout' ⊢
    rcases hstale : s.stale (decide (errcode ≠ 0)) with _ | _
    · obtain ⟨a, o₂, kvp₂, members₂, hmessages, hsound₂, hcout₂, hmsgs, hput⟩ := hrecord.messages rfl hcout' hstale
      obtain ⟨m', hset, hsound₃⟩ := hsound₂.append rfl hstale hmsgs
        (cson_new_string ((Output.message func line errcode text).take (MAX_MSG_STR - 1)))
      rw [hput] at hsound₃
      rw [hmessages, Option.bind_eq_bind, Option.bind_some]
      dsimp only
      rw [alloc_fst, hset]
      exact .some ⟨kvp₂, hsound₃⟩
    · have hpointer := hrecord.tracked (decide (errcode ≠ 0))
      rw [hstale] at hpointer
      cases hpointer with
      | @stale a hsome _ hfreed =>
        rw [Output.messages, hsome, Option.bind_eq_bind, Option.bind_some]
        dsimp only
        rw [cson_array_set, Memory.get, if_pos (show a ∈ (o₁.memory.alloc _).2.freed from hfreed)]
        exact .none

/-- A value without a name is freed again. -/
theorem Sound.drop {cell : CsonValue Bytes D} {entry : Entry D} (hsound : Sound o kvp s) (hdocument : s.document = some d)
    (hat : entry.At (o.memory.alloc cell).2.heap o.memory.heap.length) (hleaf : ∀ list, cell ≠ .ARRAY list) :
    ∃ m', (o.memory.alloc cell).2.cson_value_free o.memory.heap.length = some m' ∧ Sound { o with memory := m' } kvp s := by
  obtain ⟨hmade, htracked, hprinted⟩ := hsound
  rw [hdocument] at hmade
  cases hmade with
  | @some c _ hcout hstands hcode hobjects hret =>
    obtain ⟨hnew, hv⟩ : ¬ Owned (o.memory.alloc cell).2.heap kvp o.memory.heap.length ∧
        o.memory.heap.length ∉ (o.memory.alloc cell).2.freed := hstands.fresh_alloc
    have hone : ∀ x ∈ value_refs (o.memory.alloc cell).2.heap (o.memory.alloc cell).2.heap.length o.memory.heap.length,
        x = o.memory.heap.length := by
      intro x hx
      rcases hat.mem_value_refs hx with rfl | ⟨list, hlist, -⟩
      · rfl
      · exact absurd (Option.some.inj (getElem_alloc.symm.trans hlist)) (hleaf list)
    have hlive : (o.memory.alloc cell).2.live o.memory.heap.length = true := by
      rw [Memory.live, List.all_eq_true]
      intro x hx
      rw [hone x hx]
      exact decide_eq_true hv
    have hstands' := hstands.alloc cell
    refine ⟨⟨(o.memory.alloc cell).2.heap, value_refs (o.memory.alloc cell).2.heap (o.memory.alloc cell).2.heap.length
      o.memory.heap.length ++ o.memory.freed⟩, by rw [Memory.cson_value_free, if_pos hlive]; rfl, ?_, fun err => ?_, hprinted⟩
    · rw [hdocument]
      refine .some hcout ⟨hstands'.node, hstands'.holds, hstands'.nodup, hstands'.apart, fun x hx => ?_, fun hc => ?_,
        fun x howned hx => ?_, hstands'.texts⟩ hcode hobjects hret
      · rcases List.mem_append.mp hx with hx | hx
        · rw [hone x hx]
          exact hat.lt
        · exact hstands'.freed x hx
      · rcases List.mem_append.mp hc with hc | hc
        · exact absurd (hone c hc) (List.getElem?_eq_some_iff.mp hstands.node).1.ne
        · exact hstands.live hc
      · rcases List.mem_append.mp hx with hx | hx
        · rw [hone x hx] at howned
          exact hnew howned
        · exact hstands'.owned x howned hx
    · refine (htracked err).keep (fun x hx => List.mem_append_right _ hx) (fun a list _ hlist => ?_) rfl rfl rfl
      exact (List.getElem?_append_left (List.getElem?_eq_some_iff.mp hlist).1).trans hlist

/-- A value with a name becomes a member. -/
theorem Sound.add_member {cell : CsonValue Bytes D} {entry : Entry D} {name : Bytes} (hsound : Sound o kvp s)
    (hdocument : s.document = some d) (hcout : o.cout = some c) (hname : name ≠ []) (hplain : name ∉ reserved)
    (hat : entry.At (o.memory.alloc cell).2.heap o.memory.heap.length) (hleaf : ∀ list, cell ≠ .ARRAY list) :
    ∃ m' kvp', cson_object_set c name o.memory.heap.length (o.memory.alloc cell).2 = some (.OK, m') ∧
      Sound { o with memory := m', num_objects := o.num_objects + 1 } kvp'
        { s with document := some { d with members := put name (fun _ => entry) d.members, objects := d.objects + 1 } } := by
  obtain ⟨hmade, htracked, hprinted⟩ := hsound
  rw [hdocument] at hmade
  cases hmade with
  | some hcout' hstands hcode hobjects hret =>
    obtain rfl := Option.some.inj (hcout'.symm.trans hcout)
    have hkey : ∀ err, name ≠ messages_key err := fun err heq => hplain (heq ▸ messages_key_mem)
    have hcode' : JSON_RET_CODE_STR ≠ name := fun heq => hplain (by rw [← heq]; decide)
    obtain ⟨m', kvp', hset, hstands', hkept, hfind⟩ := hstands.add hname hkey hat hleaf
    refine ⟨m', kvp', hset, .some hcout' hstands' hcode (congrArg Nat.succ hobjects) ((hfind _ hcode').trans hret),
      fun err => ?_, hprinted⟩
    exact (htracked err).keep hkept.freed (fun _ _ _ hlist => hkept.array hstands.node hlist) rfl rfl (hfind _ (hkey err).symm)

theorem json_generic_add_name (hcout : o.cout = some c) {name : Bytes} {v : Ref} :
    o.json_generic_add none (some name) v = Output.json_generic_add.finish o v (cson_object_set c name v o.memory) := by
  unfold Output.json_generic_add
  rw [hcout]
  rfl

theorem json_add_ok {m' : Memory Bytes D} {name line : Bytes} {cell : CsonValue Bytes D} (hcout : o.cout = some c)
    (hset : cson_object_set c name o.memory.heap.length (o.memory.alloc cell).2 = some (.OK, m')) :
    (o.json_add none (some name) cell (some line)).map Prod.snd = some { o with memory := m', num_objects := o.num_objects + 1 } := by
  have henabled : o.json_is_enabled = true := by rw [Output.json_is_enabled, hcout]; rfl
  rw [Output.json_add, if_pos henabled]
  dsimp only
  rw [json_generic_add_name (o := { o with memory := (o.memory.alloc cell).2 }) hcout, alloc_fst, hset]
  rfl

theorem json_add_unnamed {m' : Memory Bytes D} {line : Bytes} {cell : CsonValue Bytes D} (hcout : o.cout = some c)
    (hfree : (o.memory.alloc cell).2.cson_value_free o.memory.heap.length = some m') :
    (o.json_add none (some []) cell (some line)).map Prod.snd = some { o with memory := m' } := by
  have henabled : o.json_is_enabled = true := by rw [Output.json_is_enabled, hcout]; rfl
  rw [Output.json_add, if_pos henabled]
  dsimp only
  rw [json_generic_add_name (o := { o with memory := (o.memory.alloc cell).2 }) hcout, cson_object_set, if_pos rfl, Output.json_generic_add.finish, alloc_fst]
  dsimp only [Option.bind_eq_bind, Option.bind_some]
  rw [if_neg (by decide), hfree]
  rfl

/-- What the functions that add a value share. -/
theorem Sound.json_add {cell : CsonValue Bytes D} {entry : Entry D} {name line : Bytes} (hsound : Sound o kvp s)
    (hplain : name ∉ reserved) (hat : ∀ m : Memory Bytes D, entry.At (m.alloc cell).2.heap m.heap.length)
    (hleaf : ∀ list, cell ≠ .ARRAY list) :
    ∃ o' kvp', (o.json_add none (some name) cell (some line)).map Prod.snd = some o' ∧ Sound o' kvp' (s.add name entry line) := by
  rcases hdocument : s.document with _ | d
  · refine ⟨{ o with printed := o.printed ++ [.line false line] }, kvp, ?_, ?_⟩
    · rw [Output.json_add, Output.json_is_enabled, hsound.cout_none hdocument]
      rfl
    · rw [Session.add, hdocument]
      have hline := hsound.line hdocument [.line false line]
      rwa [hdocument] at hline
  · obtain ⟨c, hcout⟩ := hsound.cout_some hdocument
    by_cases hname : name = []
    · obtain ⟨m', hfree, hsound'⟩ := hsound.drop hdocument (hat o.memory) hleaf
      refine ⟨_, kvp, hname ▸ json_add_unnamed hcout hfree, ?_⟩
      rw [Session.add, hdocument]
      dsimp only
      rwa [if_pos hname]
    · obtain ⟨m', kvp', hset, hsound'⟩ := hsound.add_member hdocument hcout hname hplain (hat o.memory) hleaf
      refine ⟨_, kvp', json_add_ok hcout hset, ?_⟩
      rw [Session.add, hdocument]
      dsimp only
      rwa [if_neg hname]

/-- One call on the output is one call on the session. -/
theorem Sound.step {lib : Doubles D} (hsound : Sound o kvp s) {call : Call D} (hplain : call.Plain lib) :
    Matches (call.perform lib o) (s.step lib call) := by
  have hadd : ∀ {name line : Bytes} {entry : Entry D} {cell : CsonValue Bytes D}, call.member lib = some (name, entry, line) →
      (∀ m : Memory Bytes D, entry.At (m.alloc cell).2.heap m.heap.length) → (∀ list, cell ≠ .ARRAY list) →
      Matches ((o.json_add none (some name) cell (some line)).map Prod.snd) (some (s.add name entry line)) := by
    intro name line entry cell hmember hat hleaf
    obtain ⟨o', kvp', hresult, hsound'⟩ := hsound.json_add (hplain _ hmember) hat hleaf
    rw [hresult]
    exact .some ⟨kvp', hsound'⟩
  cases call with
  | enable =>
    obtain ⟨o', hresult, hsound'⟩ := hsound.enable
    rw [Call.perform, hresult]
    exact .some ⟨[], hsound'⟩
  | disable =>
    obtain ⟨o', hresult, hsound'⟩ := hsound.disable
    rw [Call.perform, hresult]
    exact .some ⟨[], hsound'⟩
  | set_ret_code ret_code =>
    rcases hdocument : s.document with _ | d
    · rw [Call.perform, Output.json_set_ret_code, Output.json_is_enabled, hsound.cout_none hdocument, Session.step, hdocument]
      exact .some ⟨kvp, hsound⟩
    · rw [Call.perform, Session.step, hdocument]
      exact .some ⟨kvp, hsound.set_ret_code hdocument ret_code⟩
  | flush force =>
    rcases hdocument : s.document with _ | d
    · rw [Call.perform, Output.json_flush_output, hsound.cout_none hdocument, Session.step, hdocument]
      exact .some ⟨kvp, hsound⟩
    · by_cases hforce : (force || decide (0 < d.objects)) = true
      · obtain ⟨o', hresult, hsound'⟩ := hsound.flush lib hdocument hforce
        rw [Call.perform, hresult, Session.step, hdocument]
        dsimp only
        rw [if_pos hforce, ← hdocument]
        exact .some ⟨[], hsound'⟩
      · obtain ⟨c, hcout⟩ := hsound.cout_some hdocument
        rw [Call.perform, Output.json_flush_output, hcout, Session.step, hdocument]
        dsimp only
        rw [hsound.num_objects hdocument, if_neg hforce, if_neg hforce]
        exact .some ⟨kvp, hsound⟩
  | print func line errcode text => exact hsound.print func line errcode text
  | add_null name => exact hadd rfl (fun _ => getElem_alloc) nofun
  | add_integer name value => exact hadd rfl (fun _ => getElem_alloc) nofun
  | add_double name value text => exact hadd rfl (fun _ => getElem_alloc) nofun
  | add_string name string => exact hadd rfl (fun _ => getElem_alloc) nofun

/-- All calls one after the other -/
theorem Sound.run {lib : Doubles D} {calls : List (Call D)} (hsound : Sound o kvp s) (hplain : ∀ call ∈ calls, call.Plain lib) :
    Matches (calls.foldlM (fun o call => call.perform lib o) o) (calls.foldlM (fun s call => s.step lib call) s) := by
  induction calls generalizing o kvp s with
  | nil => exact .some ⟨kvp, hsound⟩
  | cons call calls ih =>
    rw [List.forall_mem_cons] at hplain
    rw [List.foldlM_cons, List.foldlM_cons]
    have hstep := hsound.step hplain.1
    generalize call.perform lib o = result, s.step lib call = result' at hstep ⊢
    cases hstep with
    | none => exact .none
    | some hnext =>
      obtain ⟨kvp', hsound'⟩ := hnext
      exact ih hsound' hplain.2

theorem Sound.initial : Sound ({} : Output D) [] {} :=
  ⟨.none rfl rfl nofun, fun err => .absent (by cases err <;> rfl) rfl (by cases err <;> rfl), rfl⟩

theorem run_matches {lib : Doubles D} {calls : List (Call D)} (hplain : ∀ call ∈ calls, call.Plain lib) : Matches (Output.run lib calls) (Session.run lib calls) :=
  Sound.initial.run hplain

end Steps

end pwrapi.pwrcmd
