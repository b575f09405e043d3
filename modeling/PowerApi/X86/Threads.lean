import Mathlib.Data.List.Sort
import PowerApi.X86.Bitmask
import PowerApi.X86.HierarchyTree
import PowerApi.X86.MetadataRuns

open Execution HashTable

namespace pwrapi.x86

/-- What the loop of `x86_read_topology` tests of the two masks. -/
def topology_masks (possible online : Bitmask) : List (Bool × Bool) :=
  (List.range possible.used.toNat).map fun i => (possible.test i, online.test i)

/-- The numbers of the hardware threads that the loop looks for, from a number on. -/
def thread_numbers : List (Bool × Bool) → ℕ → List ℕ
  | [], _ => []
  | (false, _) :: rest, n => thread_numbers rest n
  | (true, false) :: rest, n => thread_numbers rest (n + 1)
  | (true, true) :: rest, n => n :: thread_numbers rest (n + 1)

/-- The CPUs that are possible and online, where the first bit is the one of CPU `n`. -/
def live_cpus : List (Bool × Bool) → ℕ → List ℕ
  | [], _ => []
  | (false, _) :: rest, n => live_cpus rest (n + 1)
  | (true, false) :: rest, n => live_cpus rest (n + 1)
  | (true, true) :: rest, n => n :: live_cpus rest (n + 1)

section Numbers

variable {masks : List (Bool × Bool)} {n m : ℕ}

theorem le_of_mem_thread_numbers (h : m ∈ thread_numbers masks n) : n ≤ m := by
  induction masks generalizing n with
  | nil => cases h
  | cons mask rest ih =>
    obtain ⟨_ | _, _ | _⟩ := mask
    · exact ih h
    · exact ih h
    · exact Nat.le_of_succ_le (ih h)
    · rcases List.mem_cons.mp h with rfl | hrest
      · exact Nat.le_refl m
      · exact Nat.le_of_succ_le (ih hrest)

theorem lt_of_mem_thread_numbers (h : m ∈ thread_numbers masks n) : m < n + masks.length := by
  induction masks generalizing n with
  | nil => cases h
  | cons mask rest ih =>
    rw [List.length_cons]
    obtain ⟨_ | _, _ | _⟩ := mask
    · exact Nat.lt_succ_of_lt (ih h)
    · exact Nat.lt_succ_of_lt (ih h)
    · have hlt := ih h
      omega
    · rcases List.mem_cons.mp h with rfl | hrest
      · omega
      · have hlt := ih hrest
        omega

/-- The numbers increase. -/
theorem thread_numbers_pairwise (masks : List (Bool × Bool)) (n : ℕ) : (thread_numbers masks n).Pairwise (· < ·) := by
  induction masks generalizing n with
  | nil => exact .nil
  | cons mask rest ih =>
    obtain ⟨_ | _, _ | _⟩ := mask
    · exact ih n
    · exact ih n
    · exact ih (n + 1)
    · exact .cons (fun m hm => le_of_mem_thread_numbers hm) (ih (n + 1))

theorem mem_live_cpus : m ∈ live_cpus masks n ↔ ∃ i, m = n + i ∧ masks[i]? = some (true, true) := by
  induction masks generalizing n with
  | nil => simp [live_cpus]
  | cons mask rest ih =>
    have hrest : m ∈ live_cpus rest (n + 1) ↔ ∃ i, m = n + (i + 1) ∧ rest[i]? = some (true, true) := by
      rw [ih]
      exact exists_congr fun i => and_congr_left' (by rw [Nat.add_right_comm, Nat.add_assoc])
    obtain ⟨_ | _, _ | _⟩ := mask
    case true.true =>
      rw [live_cpus, List.mem_cons, hrest]
      constructor
      · rintro (rfl | ⟨i, hm, hi⟩)
        · exact ⟨0, rfl, rfl⟩
        · exact ⟨i + 1, hm, hi⟩
      · rintro ⟨_ | i, hm, hi⟩
        · exact Or.inl hm
        · exact Or.inr ⟨i, hm, hi⟩
    all_goals
      rw [live_cpus, hrest]
      constructor
      · rintro ⟨i, hm, hi⟩
        exact ⟨i + 1, hm, hi⟩
      · rintro ⟨_ | i, hm, hi⟩
        · simp at hi
        · exact ⟨i, hm, hi⟩

theorem live_cpus_pairwise (masks : List (Bool × Bool)) (n : ℕ) : (live_cpus masks n).Pairwise (· < ·) := by
  induction masks generalizing n with
  | nil => exact .nil
  | cons mask rest ih =>
    obtain ⟨_ | _, _ | _⟩ := mask
    · exact ih (n + 1)
    · exact ih (n + 1)
    · exact ih (n + 1)
    · refine .cons (fun m hm => ?_) (ih (n + 1))
      obtain ⟨i, rfl, _⟩ := mem_live_cpus.mp hm
      omega

/-- No CPU is missing below one that is possible and online. -/
def NoHole (masks : List (Bool × Bool)) : Prop :=
  ∀ i : ℕ, masks[i]? = some (true, true) → ∀ j < i, masks[j]?.map Prod.fst = some true

/-- The first bit is looked at by itself, and the others one place further on. -/
theorem aligned_cons (p : Prop) (mask : Bool × Bool) (rest : List (Bool × Bool)) :
    (∀ i : ℕ, (mask :: rest)[i]? = some (true, true) → p ∧ ∀ j < i, (mask :: rest)[j]?.map Prod.fst = some true) ↔
      (mask = (true, true) → p) ∧ ∀ i : ℕ, rest[i]? = some (true, true) →
        p ∧ mask.1 = true ∧ ∀ j < i, rest[j]?.map Prod.fst = some true := by
  have hbefore (i : ℕ) : (∀ j < i + 1, (mask :: rest)[j]?.map Prod.fst = some true) ↔
      mask.1 = true ∧ ∀ j < i, rest[j]?.map Prod.fst = some true := by
    rw [Nat.forall_lt_succ_left]
    simp
  constructor
  · intro h
    refine ⟨fun hmask => (h 0 (by rw [hmask]; rfl)).1, fun i hi => ?_⟩
    rw [← hbefore]
    exact h (i + 1) hi
  · rintro ⟨hfirst, hothers⟩ (_ | i) hi
    · exact ⟨hfirst (Option.some.inj hi), fun j hj => absurd hj (Nat.not_lt_zero j)⟩
    · rw [hbefore]
      exact hothers i hi

/-- The running number never gets ahead of the position, and falls behind for good at the first hole. -/
theorem thread_numbers_eq_live_cpus (hle : n ≤ m) :
    thread_numbers masks n = live_cpus masks m ↔
      ∀ i : ℕ, masks[i]? = some (true, true) → n = m ∧ ∀ j < i, masks[j]?.map Prod.fst = some true := by
  induction masks generalizing n m with
  | nil => simp [thread_numbers, live_cpus]
  | cons mask rest ih =>
    rw [aligned_cons]
    obtain ⟨_ | _, _ | _⟩ := mask
    case true.true =>
      rw [thread_numbers, live_cpus, List.cons_eq_cons, ih (Nat.succ_le_succ hle)]
      constructor
      · rintro ⟨hnm, hrest⟩
        exact ⟨fun _ => hnm, fun i hi => ⟨hnm, rfl, (hrest i hi).2⟩⟩
      · rintro ⟨hfirst, hrest⟩
        exact ⟨hfirst rfl, fun i hi => ⟨congrArg Nat.succ (hfirst rfl), (hrest i hi).2.2⟩⟩
    case true.false =>
      rw [thread_numbers, live_cpus, ih (Nat.succ_le_succ hle)]
      simp
    all_goals
      rw [thread_numbers, live_cpus, ih (Nat.le_succ_of_le hle)]
      -- from the hole on the number stays behind
      have hbehind : n ≠ m + 1 := by omega
      simp [hbehind]

/-- The numbers are those of the CPUs exactly where there is no hole. -/
theorem thread_numbers_iff : (∀ k, k ∈ thread_numbers masks 0 ↔ masks[k]? = some (true, true)) ↔ NoHole masks := by
  have hlive (k : ℕ) : k ∈ live_cpus masks 0 ↔ masks[k]? = some (true, true) := by simp [mem_live_cpus]
  have heq : thread_numbers masks 0 = live_cpus masks 0 ↔ NoHole masks := by
    simp [thread_numbers_eq_live_cpus, NoHole]
  rw [← heq]
  constructor
  · intro h
    refine (thread_numbers_pairwise masks 0).eq_of_mem_iff (live_cpus_pairwise masks 0) fun k => ?_
    rw [h, hlive]
  · intro h k
    rw [h, hlive]

end Numbers

/-- The topology files of a CPU can be read. -/
def Topology.Readable (t : Topology) (ht_id : UInt64) : Prop :=
  (t.physical_package_id ht_id).isSome ∧ (t.core_id ht_id).isSome

instance (t : Topology) (ht_id : UInt64) : Decidable (t.Readable ht_id) := inferInstanceAs (Decidable (_ ∧ _))

namespace Hierarchy

variable {topology : Topology} {h h' : Hierarchy}

/-- The object at an address is a hardware thread. -/
def Thread (h : Hierarchy) (a : Nat) (o : HierObj) : Prop := h.objects.lookup a = some o ∧ o.type = .HT

/-- There is a hardware thread for each of the CPUs and for no other, below the core and the
socket whose numbers are read from its own topology files. -/
structure HasThreads (topology : Topology) (cpus : Set ℕ) (h : Hierarchy) : Prop where
  exactly : ∀ cpu : UInt64, (∃ a o, h.Thread a o ∧ o.os_id = cpu) ↔ cpu.toNat ∈ cpus
  once : ∀ a b o p, h.Thread a o → h.Thread b p → o.os_id = p.os_id → a = b
  numbers : ∀ a o, h.Thread a o → ∃ socket_id core_id,
    topology.physical_package_id o.os_id = some socket_id ∧ topology.core_id o.os_id = some core_id ∧
    ∃ core socket, h.Under o core ∧ h.Under core socket ∧ (ObjKey.core socket_id core_id).Of core ∧
      (ObjKey.socket socket_id).Of socket

theorem Placed.thread {o : HierObj} (hplaced : h.Placed topology o) (htype : o.type = .HT) :
    (ObjKey.ht o.os_id).Of o ∧ ∃ core, h.Under o core ∧
      (ObjKey.core (topology.socket_of o.os_id) (topology.core_of o.os_id)).Of core := by
  cases hplaced with
  | ht hkey core hunder hcore => exact ⟨hkey, core, hunder, hcore⟩
  | core hkey _ _ _ => cases htype.symm.trans hkey.numbered.1
  | mem hkey _ _ _ => cases htype.symm.trans hkey.numbered.1
  | socket hkey _ => cases htype.symm.trans hkey.numbered.1
  | other hother _ =>
    rw [htype] at hother
    rcases hother with hother | hother <;> cases hother

/-- A hardware thread is there exactly if its name is. -/
theorem Tidy.thread_iff (ht : h.Tidy topology) (id : UInt64) :
    (∃ a o, h.Thread a o ∧ o.os_id = id) ↔ h.map.lookup (ht_name id) ≠ none := by
  constructor
  · rintro ⟨a, o, ⟨ho, htype⟩, rfl⟩
    obtain ⟨hkey, _⟩ := (ht.placed a o ho).thread htype
    have hmapped := ht.object a o ho
    rw [hkey.name] at hmapped
    exact Option.ne_none_iff_exists'.mpr ⟨a, hmapped⟩
  · intro hmapped
    obtain ⟨a, ha⟩ := Option.ne_none_iff_exists'.mp hmapped
    obtain ⟨o, ho, hof⟩ := ht.found (.ht id) ha
    exact ⟨a, o, ⟨ho, hof.numbered.1⟩, hof.numbered.2⟩

/-- In a tidy hierarchy each thread is there once and in its place, which is the right one
if its topology files can be read. -/
theorem Tidy.hasThreads_iff (ht : h.Tidy topology) {cpus : Set ℕ} :
    h.HasThreads topology cpus ↔
      (∀ cpu : UInt64, h.map.lookup (ht_name cpu) ≠ none ↔ cpu.toNat ∈ cpus) ∧
        ∀ cpu : UInt64, cpu.toNat ∈ cpus → topology.Readable cpu := by
  constructor
  · intro hthreads
    refine ⟨fun cpu => ?_, fun cpu hcpu => ?_⟩
    · rw [← ht.thread_iff, hthreads.exactly]
    · obtain ⟨a, o, ho, rfl⟩ := (hthreads.exactly cpu).mpr hcpu
      obtain ⟨socket_id, core_id, hsocket_id, hcore_id, -⟩ := hthreads.numbers a o ho
      exact ⟨Option.isSome_of_eq_some hsocket_id, Option.isSome_of_eq_some hcore_id⟩
  · rintro ⟨hexactly, hreadable⟩
    refine ⟨fun cpu => ?_, fun a b o p ho hp hid => ?_, fun a o ho => ?_⟩
    · rw [ht.thread_iff, hexactly]
    · refine ht.name_unique ho.1 hp.1 ?_
      rw [((ht.placed a o ho.1).thread ho.2).1.name, ((ht.placed b p hp.1).thread hp.2).1.name, hid]
    · obtain ⟨_, core, hunder, hcore⟩ := (ht.placed a o ho.1).thread ho.2
      have hobject : ∃ c, h.objects.lookup c = some core := by
        obtain ⟨_, _, n, _, _, _, hn⟩ := hunder
        exact ⟨n.data, hn⟩
      obtain ⟨c, hc⟩ := hobject
      obtain ⟨htype, hsocket_id, _⟩ := hcore.numbered
      obtain ⟨socket, hunder', hsocket⟩ := ((ht.placed c core hc).core_under htype).2
      rw [hsocket_id] at hsocket
      -- the numbers are those of the files, not what is left of unreadable ones
      have hcpu := (hexactly o.os_id).mp ((ht.thread_iff o.os_id).mp ⟨a, o, ho, rfl⟩)
      obtain ⟨hpackage, hid⟩ := hreadable o.os_id hcpu
      obtain ⟨socket_id, hpackage⟩ := Option.isSome_iff_exists.mp hpackage
      obtain ⟨core_id, hid⟩ := Option.isSome_iff_exists.mp hid
      rw [Topology.socket_of, hpackage, Option.getD_some] at hcore hsocket
      rw [Topology.core_of, hid, Option.getD_some] at hcore
      exact ⟨socket_id, core_id, hpackage, hid, core, socket, hunder, hunder', hcore, hsocket⟩

/-- After a run in which every thread is found, the threads that are new are those of the run. -/
theorem threads_of_run {run : List ((HtCall × Option Nat) × Hierarchy)} (ht : h.Tidy topology)
    (hrun : EachStep (HtStep topology) h run) (hfound : ∀ x ∈ run, x.1.2 ≠ none)
    (hdistinct : (run.map fun x => x.1.1.ht_id).Nodup)
    (hnew : ∀ x ∈ run, h.map.lookup (ht_name x.1.1.ht_id) = none) :
    (final h run).Tidy topology ∧
      (∀ a o, h.objects.lookup a = some o → (final h run).objects.lookup a = some o) ∧
      ∀ id, h.map.lookup (ht_name id) = none →
        ((final h run).map.lookup (ht_name id) ≠ none ↔ id ∈ run.map fun x => x.1.1.ht_id) := by
  induction run generalizing h with
  | nil => exact ⟨ht, fun _ _ ho => ho, fun id hid => by simp [hid]⟩
  | cons x rest ih =>
    obtain ⟨⟨call, result⟩, h₁⟩ := x
    obtain ⟨⟨hfresh, hfind⟩, hrest⟩ := hrun
    rw [List.map_cons, List.nodup_cons] at hdistinct
    obtain ⟨hresult, hresults⟩ := List.forall_mem_cons.mp hfound
    obtain ⟨hcall, hcalls⟩ := List.forall_mem_cons.mp hnew
    have hfinds := x86_find_ht_finds ht hfresh hcall
    rw [hfind] at hfinds
    have hunmapped (id : UInt64) (hid : h.map.lookup (ht_name id) = none) (hne : id ≠ call.ht_id) :
        h₁.map.lookup (ht_name id) = none :=
      hfinds.grows.unmapped (.ht id) hid (by simpa using hne)
    obtain ⟨htidy, hobjects, hmapped⟩ := ih hfinds.tidy hrest hresults hdistinct.2 fun y hy => by
      refine hunmapped _ (hcalls y hy) fun heq => ?_
      exact hdistinct.1 (heq ▸ List.mem_map_of_mem hy)
    refine ⟨htidy, fun a o ho => hobjects a o (hfinds.grows.objects a o ho), fun id hid => ?_⟩
    rw [final_cons, List.map_cons, List.mem_cons]
    by_cases hne : id = call.ht_id
    · subst hne
      obtain ⟨a, rfl⟩ := Option.ne_none_iff_exists'.mp hresult
      obtain ⟨o, ho, hof⟩ := hfinds.found a rfl
      have hthread := (htidy.thread_iff call.ht_id).mp
        ⟨a, o, ⟨hobjects a o ho, hof.numbered.1⟩, hof.numbered.2⟩
      exact iff_of_true hthread (Or.inl rfl)
    · rw [hmapped id (hunmapped id hid hne), or_iff_right hne]

end Hierarchy

section Read

variable {conv : Conversions} {files : SystemFiles} {view : SystemView} {h h' : Hierarchy} {md md' : X86Metadata}

/-- The searches for hardware threads with the given numbers, one after the other. -/
def thread_run (files : SystemFiles) (view : SystemView) (numbers : List ℕ) (h : Hierarchy) :
    List ((HtCall × Option Nat) × Hierarchy) :=
  run_calls (fun call h => some (h.x86_find_ht files.topology call)) (numbers.map fun n => view.hts (.ofNat n)) h

theorem thread_run_ids (files : SystemFiles) (hcalls : ∀ id, (view.hts id).ht_id = id) (numbers : List ℕ)
    (h : Hierarchy) : (thread_run files view numbers h).map (fun x => x.1.1.ht_id) = numbers.map UInt64.ofNat := by
  induction numbers generalizing h with
  | nil => rfl
  | cons n rest ih =>
    rw [thread_run, List.map_cons, run_calls, List.map_cons, List.map_cons, hcalls]
    exact congrArg _ (ih _)

/-- The loop succeeds after a run in which every thread is found. -/
theorem x86_read_topology_loop_run {masks : List (Bool × Bool)} {n : ℕ} {status : Int}
    (hread : x86_read_topology_loop files view masks (.ofNat n) (status, h) = (PWR_RET_SUCCESS, h')) :
    status = PWR_RET_SUCCESS ∧ h' = final h (thread_run files view (thread_numbers masks n) h) ∧
      ∀ x ∈ thread_run files view (thread_numbers masks n) h, x.1.2 ≠ none := by
  induction masks generalizing n h with
  | nil =>
    obtain ⟨rfl, rfl⟩ := Prod.mk.inj hread
    exact ⟨rfl, rfl, fun _ hx => absurd hx List.not_mem_nil⟩
  | cons mask rest ih =>
    have hnext : UInt64.ofNat n + 1 = .ofNat (n + 1) := (UInt64.ofNat_add n 1).symm
    unfold x86_read_topology_loop at hread
    rw [hnext] at hread
    obtain ⟨_ | _, _ | _⟩ := mask
    · exact ih hread
    · exact ih hread
    · exact ih hread
    · simp only [if_true] at hread
      cases hfind : h.x86_find_ht files.topology (view.hts (.ofNat n)) with
      | mk result h₁ =>
        rw [hfind] at hread
        cases result with
        | none => exact absurd (show PWR_RET_FAILURE = PWR_RET_SUCCESS from congrArg Prod.fst hread) (by decide)
        | some found =>
          obtain ⟨hstatus, hfinal, hfound⟩ := ih hread
          have hrun : thread_run files view (thread_numbers ((true, true) :: rest) n) h =
              ((view.hts (.ofNat n), some found), h₁) ::
                thread_run files view (thread_numbers rest (n + 1)) h₁ := by
            rw [thread_run, thread_numbers, List.map_cons, run_calls, hfind]
            rfl
          rw [hrun]
          exact ⟨hstatus, hfinal, List.forall_mem_cons.mpr ⟨Option.some_ne_none found, hfound⟩⟩

/-- The CPUs that both masks have. -/
def possible_and_online (possible online : Bitmask) : Set ℕ :=
  {cpu | cpu < possible.used.toNat ∧ possible.test cpu = true ∧ online.test cpu = true}

theorem topology_masks_live (possible online : Bitmask) (cpu : ℕ) :
    (topology_masks possible online)[cpu]? = some (true, true) ↔ cpu ∈ possible_and_online possible online := by
  show _ ↔ cpu < possible.used.toNat ∧ possible.test cpu = true ∧ online.test cpu = true
  rw [topology_masks, List.getElem?_map]
  by_cases hcpu : cpu < possible.used.toNat
  · simp [hcpu]
  · simp [hcpu]

theorem noHole_topology_masks (possible online : Bitmask) : NoHole (topology_masks possible online) ↔
    ∀ cpu ∈ possible_and_online possible online, ∀ n < cpu, possible.test n = true := by
  refine forall_congr' fun cpu => ?_
  rw [topology_masks_live]
  refine imp_congr_right fun hcpu => forall₂_congr fun n hn => ?_
  have hlt : n < possible.used.toNat := Nat.lt_trans hn hcpu.1
  simp [topology_masks, List.getElem?_range hlt]

/-- The searches that `x86_read_topology` makes. -/
def topology_run (files : SystemFiles) (view : SystemView) (possible online : Bitmask) (h : Hierarchy) :
    List ((HtCall × Option Nat) × Hierarchy) :=
  thread_run files view (thread_numbers (topology_masks possible online) 0) h

theorem x86_read_topology_run {masks : List (Bool × Bool)}
    (hread : x86_read_topology conv files view masks h md = (PWR_RET_SUCCESS, h', md')) :
    h' = final h (thread_run files view (thread_numbers masks 0) h) ∧
      ∀ x ∈ thread_run files view (thread_numbers masks 0) h, x.1.2 ≠ none := by
  have hloop : ∃ status, x86_read_topology_loop files view masks (.ofNat 0) (status, h) = (PWR_RET_SUCCESS, h') := by
    unfold x86_read_topology at hread
    cases hcpu : view.cpu with
    | none =>
      simp only [hcpu, Prod.mk.injEq] at hread
      exact ⟨PWR_RET_FAILURE, Prod.ext hread.1 hread.2.1⟩
    | some cpu =>
      simp only [hcpu, Prod.mk.injEq] at hread
      exact ⟨_, Prod.ext hread.1 hread.2.1⟩
  obtain ⟨status, hstatus⟩ := hloop
  exact (x86_read_topology_loop_run hstatus).2

/-- The threads of a topology that is read are the CPUs that are possible and online, each
once and in its place, exactly if no CPU below one of them is missing from the possible ones
and the topology files of all of them can be read. -/
theorem x86_read_topology_threads_iff {possible online : Bitmask} (hroot : h.RootInPlace)
    (hcalls : ∀ id, (view.hts id).ht_id = id)
    (hfresh : EachStep (fun h step _ => Hierarchy.Fresh h step.1.news) h (topology_run files view possible online h))
    (hread : x86_read_topology conv files view (topology_masks possible online) h md =
      (PWR_RET_SUCCESS, h', md')) :
    h'.HasThreads files.topology (possible_and_online possible online) ↔
      ∀ cpu ∈ possible_and_online possible online,
        (∀ n < cpu, possible.test n = true) ∧ files.topology.Readable (.ofNat cpu) := by
  obtain ⟨rfl, hfound⟩ := x86_read_topology_run hread
  have hids := thread_run_ids files hcalls (thread_numbers (topology_masks possible online) 0) h
  have hbound : ∀ n ∈ thread_numbers (topology_masks possible online) 0, n < 2 ^ 64 := fun n hn => by
    have hlt := lt_of_mem_thread_numbers hn
    rw [topology_masks, List.length_map, List.length_range, Nat.zero_add] at hlt
    exact Nat.lt_trans hlt possible.used.toNat_lt
  have hdistinct : ((thread_numbers (topology_masks possible online) 0).map UInt64.ofNat).Nodup := by
    refine List.Nodup.map_on (fun m hm n hn heq => ?_) (thread_numbers_pairwise _ 0).nodup
    rw [← UInt64.toNat_inj, UInt64.toNat_ofNat', UInt64.toNat_ofNat', Nat.mod_eq_of_lt (hbound m hm),
      Nat.mod_eq_of_lt (hbound n hn)] at heq
    exact heq
  have hsteps : EachStep (Hierarchy.HtStep files.topology) h (topology_run files view possible online h) :=
    (hfresh.and (eachStep_run_calls _ h _)).imp fun _ _ _ hstep => ⟨hstep.1, Option.some.inj hstep.2⟩
  obtain ⟨htidy, _, hmapped⟩ := Hierarchy.threads_of_run hroot.tidy hsteps hfound
    (by rw [topology_run, hids]; exact hdistinct) fun x _ => hroot.unmapped (.ht x.1.1.ht_id)
  have hthread (cpu : UInt64) : (final h (topology_run files view possible online h)).map.lookup (ht_name cpu) ≠ none ↔
      cpu.toNat ∈ thread_numbers (topology_masks possible online) 0 := by
    rw [hmapped cpu (hroot.unmapped (.ht cpu)), topology_run, hids, List.mem_map]
    constructor
    · rintro ⟨n, hn, rfl⟩
      rwa [UInt64.toNat_ofNat', Nat.mod_eq_of_lt (hbound n hn)]
    · exact fun hn => ⟨cpu.toNat, hn, UInt64.ofNat_toNat⟩
  have hreadable : (∀ cpu : UInt64, cpu.toNat ∈ possible_and_online possible online → files.topology.Readable cpu) ↔
      ∀ cpu ∈ possible_and_online possible online, files.topology.Readable (.ofNat cpu) := by
    constructor
    · intro hall cpu hcpu
      refine hall (.ofNat cpu) ?_
      rwa [UInt64.toNat_ofNat', Nat.mod_eq_of_lt (Nat.lt_trans hcpu.1 possible.used.toNat_lt)]
    · intro hall cpu hcpu
      exact UInt64.ofNat_toNat (x := cpu) ▸ hall cpu.toNat hcpu
  rw [← topology_run, htidy.hasThreads_iff, hreadable, forall₂_and, ← noHole_topology_masks, ← thread_numbers_iff]
  refine and_congr_left fun _ => ?_
  constructor
  · intro hthreads k
    rw [topology_masks_live]
    by_cases hk : k < 2 ^ 64
    · have hcpu : (UInt64.ofNat k).toNat = k := by rw [UInt64.toNat_ofNat', Nat.mod_eq_of_lt hk]
      rw [← hcpu, ← hthread, hthreads]
    · refine iff_of_false (fun hn => hk (hbound k hn)) fun hlive => hk ?_
      exact Nat.lt_trans hlive.1 possible.used.toNat_lt
  · intro hnumbers cpu
    rw [hthread, hnumbers, topology_masks_live]

/-- Each thread is a core of its own on socket 0. -/
def three_cores : SystemFiles :=
  { one_cpu with topology := { physical_package_id := fun _ => some 0, core_id := fun ht_id => some ht_id } }

def three_threads : SystemView where
  cpu := some 0
  node := Hierarchy.new_at 1
  pplane_cpu := Hierarchy.new_at 2
  pplane_mem := Hierarchy.new_at 3
  hts ht_id :=
    { ht_id, socket := Hierarchy.new_at (4 * ht_id.toNat + 4), mem := Hierarchy.new_at (4 * ht_id.toNat + 5)
      core := Hierarchy.new_at (4 * ht_id.toNat + 6), ht := Hierarchy.new_at (4 * ht_id.toNat + 7)
      rapl := some (0, 0) }
  temp_ids := true

def first_three : Bitmask := ⟨3, [0b111], rfl⟩

/-- CPUs 0 and 2. -/
def outer_two : Bitmask := ⟨3, [0b101], rfl⟩

def read_outer (possible : Bitmask) : Int × Hierarchy × X86Metadata :=
  x86_read_topology plain three_cores three_threads (topology_masks possible outer_two) Hierarchy.node_alone {}

theorem x86_read_topology_threads_first_three :
    (read_outer first_three).1 = PWR_RET_SUCCESS ∧
    (read_outer first_three).2.1.HasThreads three_cores.topology (possible_and_online first_three outer_two) := by
  have hstatus : (read_outer first_three).1 = PWR_RET_SUCCESS := by decide +kernel
  have hroot : Hierarchy.node_alone.RootInPlace :=
    Hierarchy.x86_insert_node_rootInPlace (by decide +kernel) (by decide +kernel)
  have hread : read_outer first_three = (PWR_RET_SUCCESS, (read_outer first_three).2) := Prod.ext hstatus rfl
  refine ⟨hstatus, (x86_read_topology_threads_iff hroot (fun _ => rfl) (by decide +kernel) hread).mpr ?_⟩
  intro cpu hcpu
  have hall : ∀ n < 3, first_three.test n = true := by decide
  exact ⟨fun n hn => hall n (Nat.lt_trans hn hcpu.1), rfl, rfl⟩

/-- Where CPU 1 is not possible, CPU 2 becomes thread 1. -/
theorem hole_shifts_threads :
    (read_outer outer_two).1 = PWR_RET_SUCCESS ∧
    EachStep (fun h step _ => Hierarchy.Fresh h step.1.news) Hierarchy.node_alone
      (topology_run three_cores three_threads outer_two outer_two Hierarchy.node_alone) ∧
    ¬(read_outer outer_two).2.1.HasThreads three_cores.topology (possible_and_online outer_two outer_two) := by
  refine ⟨by decide +kernel, by decide +kernel, fun hthreads => ?_⟩
  have hthread : ((read_outer outer_two).2.1.objects.lookup 11).map (fun o => (o.type, o.os_id)) = some (.HT, 1) := by
    decide +kernel
  obtain ⟨o, ho, hkind⟩ := Option.map_eq_some_iff.mp hthread
  obtain ⟨htype, hid⟩ := Prod.mk.inj hkind
  have hcpu := (hthreads.exactly 1).mp ⟨11, o, ⟨ho, htype⟩, hid⟩
  exact absurd hcpu.2.1 (by decide)

end Read

end pwrapi.x86
