import PowerApi.Daemon.Lists

open SortedList Execution

namespace pwrapi.daemon

/-- A step of one of the two threads: the main thread accepts a client, serves one
request of a client or closes a client, or the worker processes the oldest queued request. -/
inductive ThreadStep where
  | accept (client_socket : Int) (cred : Ucred)
  | receive (client_socket : Int) (req : Request)
  | close (client_socket : Int) (io : Io) (order : List SetInfo)
  | work (io : Io) (now : UInt64 × UInt64)

namespace Daemon

/-- The state after a step of a thread; `none` when the step dereferences a record
that has been freed or the head of an empty list. -/
def thread_step (pmlog : Pmlog) (step : ThreadStep) (s : Daemon) : Option Daemon :=
  match step with
  | .accept client_socket cred => some (s.socket_construct client_socket cred)
  | .receive client_socket req => (s.process_client_req pmlog client_socket (some req)).map Prod.snd
  | .close client_socket io order => s.socket_destruct io order client_socket
  | .work io now => s.worker_process_items io now

/-- The system hands out socket numbers that are not in use, and a hash table is
iterated in some order of its entries. -/
def ThreadPermitted (s : Daemon) : ThreadStep → Prop
  | .accept client_socket _ => s.open_sockets.lookup client_socket = none
  | .close client_socket _ order => s.IterationOrder order client_socket
  | _ => True

instance (s : Daemon) (step : ThreadStep) : Decidable (s.ThreadPermitted step) :=
  match step with
  | .accept client_socket _ => inferInstanceAs (Decidable (s.open_sockets.lookup client_socket = none))
  | .receive _ _ => .isTrue trivial
  | .close client_socket _ order => inferInstanceAs (Decidable (s.IterationOrder order client_socket))
  | .work _ _ => .isTrue trivial

/-- One step of an interleaving of the two threads. Nothing follows an access to freed memory. -/
def Interleaved (pmlog : Pmlog) (s : Option Daemon) (step : ThreadStep) (s' : Option Daemon) : Prop :=
  ∃ d, s = some d ∧ d.ThreadPermitted step ∧ s' = d.thread_step pmlog step

/-- Every entry in the lists belongs to a socket record that has not been destroyed. -/
def NoOrphans (s : Daemon) : Prop :=
  ∀ path, ∀ e ∈ s.slist path, ∀ skinfo, e.skinfo = some skinfo → ∃ sk, s.sockets.lookup skinfo = some sk

/-- A client is closed only while no request of it waits in the queue. -/
def ClosesServed (s : Daemon) : ThreadStep → Prop
  | .close client_socket _ _ =>
    ∀ skinfo ∈ s.open_sockets.lookup client_socket, ∀ item ∈ s.work_queue, item.skinfo ≠ some skinfo
  | _ => True

instance (s : Daemon) (step : ThreadStep) : Decidable (s.ClosesServed step) :=
  match step with
  | .accept _ _ => .isTrue trivial
  | .receive _ _ => .isTrue trivial
  | .close client_socket _ _ => inferInstanceAs (Decidable (∀ skinfo ∈ s.open_sockets.lookup client_socket,
      ∀ item ∈ s.work_queue, item.skinfo ≠ some skinfo))
  | .work _ _ => .isTrue trivial

/-- The queued records are not listed yet, and the sockets they are tagged with are allocated. -/
structure Queued (s : Daemon) : Prop where
  tagged : ∀ item ∈ s.work_queue, ∃ skinfo sk, item.skinfo = some skinfo ∧ s.sockets.lookup skinfo = some sk
  nodup : (s.work_queue.map SetInfo.addr).Nodup
  addr_lt : ∀ item ∈ s.work_queue, item.addr < s.next_addr
  unlisted : ∀ item ∈ s.work_queue, ∀ path, ∀ e ∈ s.slist path, e.addr ≠ item.addr

/-- The invariant of the daemon between two steps of its threads. -/
structure ThreadInvariant (s : Daemon) : Prop where
  store : s.StoreInvariant
  queue : s.Queued

section Addresses

variable {io : Io} {now : UInt64} {persist : Bool} {newset : SetInfo} {s s' : Daemon} {path : String} {e : SetInfo}

theorem DefsetStep.addr_of_mem (h : DefsetStep io now persist newset s s') (hb : s.Balanced)
    (he : e ∈ s'.slist path) : e.addr = s.next_addr ∨ ∃ e₀ ∈ s.slist path, e₀.addr = e.addr := by
  cases h with
  | first value =>
    rw [set_insert_slist] at he
    split at he
    · obtain rfl | he := mem_insert_sorted.mp he
      · exact Or.inl rfl
      · exact Or.inr ⟨e, he, rfl⟩
    · exact Or.inr ⟨e, he, rfl⟩
  | replaced d hd =>
    obtain ⟨hpath, _⟩ := hb.def_entry _ _ hd
    rw [set_insert_slist] at he
    split at he
    · next hin =>
      obtain rfl | he := mem_insert_sorted.mp he
      · refine Or.inr ⟨d, hb.mem_slist.mpr (Or.inl ?_), rfl⟩
        have hin' : path = d.setreq.path := hin
        rw [hin', hpath]
        exact hd
      · exact Or.inr ⟨e, mem_of_mem_set_remove he, rfl⟩
    · exact Or.inr ⟨e, mem_of_mem_set_remove he, rfl⟩
  | kept => exact Or.inr ⟨e, he, rfl⟩

/-- Processing a request lists its record and at most one record at a new address. -/
theorem ProcessStep.addr_of_mem {now : UInt64 × UInt64} (h : ProcessStep io now newset s s') (hinv : s.StoreInvariant)
    (he : e ∈ s'.slist path) :
    e.addr = newset.addr ∨ e.addr = s.next_addr ∨ ∃ e₀ ∈ s.slist path, e₀.addr = e.addr := by
  cases h with
  | refused hsame => exact Or.inr (Or.inr ⟨e, hsame.slist_eq path ▸ he, rfl⟩)
  | applied skinfo sk s₁ top hskinfo hsk hdef htop hsame =>
    have hlisted : e ∈ (s₁.listed skinfo now.2 newset).slist path := by
      rw [hsame.slist_eq] at he
      exact he
    rw [listed_slist (hdef.balanced hinv.balanced)] at hlisted
    split at hlisted
    · obtain rfl | hin := mem_insert_sorted.mp hlisted
      · exact Or.inl rfl
      · exact Or.inr (hdef.addr_of_mem hinv.balanced (mem_without.mp hin).1)
    · exact Or.inr (hdef.addr_of_mem hinv.balanced hlisted)

end Addresses

section Steps

variable {pmlog : Pmlog} {step : ThreadStep} {s s' : Daemon}

/-- In a balanced store an entry's owner has it in the table of its allocated record. -/
theorem Balanced.no_orphans (h : s.Balanced) : s.NoOrphans := by
  intro path e he skinfo howner
  obtain ⟨sk, hsk, _⟩ := Option.bind_eq_some_iff.mp (h.my_change_of_mem he howner)
  exact ⟨sk, hsk⟩

/-- What is queued does not matter to the store. -/
theorem StoreInvariant.with_queue (hinv : s.StoreInvariant) (work_queue : List SetInfo) :
    ({ s with work_queue } : Daemon).StoreInvariant :=
  ⟨hinv.balanced.congr rfl rfl (Nat.le_refl _) (fun _ => rfl) (fun _ _ => rfl),
    ⟨hinv.linked.open_iff, hinv.linked.addr_lt⟩, hinv.defaulted⟩

/-- The worker processes the oldest request without accessing freed memory. -/
theorem worker_process_items_invariant (io : Io) (now : UInt64 × UInt64) (hinv : s.ThreadInvariant) :
    ∃ s', s.worker_process_items io now = some s' ∧ s'.ThreadInvariant := by
  unfold worker_process_items
  cases hqueue : s.work_queue with
  | nil => exact ⟨s, rfl, hinv⟩
  | cons item rest =>
    have hmem : item ∈ s.work_queue := by simp [hqueue]
    have hrest : ∀ item' ∈ rest, item' ∈ s.work_queue := fun item' h => by simp [hqueue, h]
    obtain ⟨skinfo, sk, hskinfo, hsk⟩ := hinv.queue.tagged item hmem
    have hstore : ({ s with work_queue := rest } : Daemon).StoreInvariant := hinv.store.with_queue rest
    have hunlisted : ({ s with work_queue := rest } : Daemon).Unlisted item :=
      hinv.queue.unlisted item hmem item.setreq.path
    obtain ⟨s', hprocess⟩ := worker_process_item_success (s := { s with work_queue := rest }) io now hskinfo hsk
    obtain ⟨hstore', hkeeps⟩ :=
      worker_process_item_invariant hstore hunlisted (hinv.queue.addr_lt item hmem) hprocess
    refine ⟨s', by simpa [hskinfo] using hprocess, hstore', ?_, ?_, ?_, ?_⟩
    · intro item' hin
      rw [hkeeps.work_queue] at hin
      obtain ⟨skinfo', sk', hskinfo', hsk'⟩ := hinv.queue.tagged item' (hrest item' hin)
      obtain ⟨sk₁, hsk₁, _⟩ := hkeeps.lookup hsk'
      exact ⟨skinfo', sk₁, hskinfo', hsk₁⟩
    · rw [hkeeps.work_queue]
      have hnodup := hinv.queue.nodup
      rw [hqueue, List.map_cons, List.nodup_cons] at hnodup
      exact hnodup.2
    · intro item' hin
      rw [hkeeps.work_queue] at hin
      exact (hinv.queue.addr_lt item' (hrest item' hin)).trans_le hkeeps.next_addr
    · intro item' hin path e he haddr
      rw [hkeeps.work_queue] at hin
      obtain hitem | hnext | ⟨e₀, he₀, haddr₀⟩ := (worker_process_item_step hprocess).addr_of_mem hstore he
      · have hnodup := hinv.queue.nodup
        rw [hqueue, List.map_cons, List.nodup_cons] at hnodup
        exact hnodup.1 (List.mem_map.mpr ⟨item', hin, haddr.symm.trans hitem⟩)
      · have hlt := hinv.queue.addr_lt item' (hrest item' hin)
        rw [← haddr, hnext] at hlt
        exact Nat.lt_irrefl _ hlt
      · exact hinv.queue.unlisted item' (hrest item' hin) path e₀ he₀ (haddr₀.trans haddr)

theorem receive_invariant {client_socket : Int} {req : Request} {retval : Int} (hinv : s.ThreadInvariant)
    (hstep : RequestStep client_socket req s retval s') : s'.ThreadInvariant := by
  cases hstep with
  | unknown => exact hinv
  | answered skinfo sk sk' resp hopen hsk hsockid hcred hchanges =>
    obtain ⟨hstore, _⟩ := answered_invariant hinv.store (s.sent ++ [_]) hsk hsockid hchanges
    refine ⟨hstore, fun item hin => ?_, hinv.queue.nodup, hinv.queue.addr_lt, hinv.queue.unlisted⟩
    obtain ⟨skinfo', sk₁, hskinfo', hsk₁⟩ := hinv.queue.tagged item hin
    refine ⟨skinfo', if skinfo' = skinfo then sk' else sk₁, hskinfo', ?_⟩
    rw [HashTable.lookup_insert_eq_ite]
    split
    · rfl
    · exact hsk₁
  | queued skinfo sk set hreq hopen hsk hrole =>
    have hold : ∀ item ∈ s.work_queue, item.addr ≠ s.next_addr := fun item hin =>
      Nat.ne_of_lt (hinv.queue.addr_lt item hin)
    refine ⟨(next_addr_invariant hinv.store).with_queue _, ?_, ?_, ?_, ?_⟩
    · intro item hin
      obtain hin | hin := List.mem_append.mp hin
      · exact hinv.queue.tagged item hin
      · rw [List.mem_singleton.mp hin]
        exact ⟨skinfo, sk, rfl, hsk⟩
    · rw [List.map_append, List.nodup_append]
      refine ⟨hinv.queue.nodup, List.nodup_singleton _, ?_⟩
      intro addr haddr addr' haddr' heq
      obtain ⟨item, hin, rfl⟩ := List.mem_map.mp haddr
      exact hold item hin (heq.trans (List.mem_singleton.mp haddr'))
    · intro item hin
      obtain hin | hin := List.mem_append.mp hin
      · exact (hinv.queue.addr_lt item hin).trans (Nat.lt_succ_self _)
      · rw [List.mem_singleton.mp hin]
        exact Nat.lt_succ_self _
    · intro item hin path e he
      obtain hin | hin := List.mem_append.mp hin
      · exact hinv.queue.unlisted item hin path e he
      · rw [List.mem_singleton.mp hin]
        exact Nat.ne_of_lt (hinv.store.balanced.addr_lt path e he)

theorem accept_invariant {client_socket : Int} (hinv : s.ThreadInvariant) (cred : Ucred)
    (hfresh : s.open_sockets.lookup client_socket = none) :
    (s.socket_construct client_socket cred).ThreadInvariant := by
  refine ⟨socket_construct_invariant hinv.store cred hfresh, fun item hin => ?_, hinv.queue.nodup,
    fun item hin => (hinv.queue.addr_lt item hin).trans (Nat.lt_succ_self _), hinv.queue.unlisted⟩
  obtain ⟨skinfo, sk, hskinfo, hsk⟩ := hinv.queue.tagged item hin
  have hne : skinfo ≠ s.next_addr := Nat.ne_of_lt (hinv.store.linked.addr_lt skinfo sk hsk)
  exact ⟨skinfo, sk, hskinfo, (Finmap.lookup_insert_of_ne _ hne).trans hsk⟩

theorem close_invariant {client_socket : Int} {io : Io} {order : List SetInfo} (hinv : s.ThreadInvariant)
    (horder : s.IterationOrder order client_socket) (hserved : s.ClosesServed (.close client_socket io order)) :
    ∃ s', s.socket_destruct io order client_socket = some s' ∧ s'.ThreadInvariant := by
  cases hopen : s.open_sockets.lookup client_socket with
  | none => exact ⟨s, by rw [socket_destruct, hopen], hinv⟩
  | some skinfo =>
    have hdestructs := destructed_destructs io horder hinv.store hopen
    refine ⟨_, socket_destruct_eq io horder hinv.store hopen, hdestructs.invariant hinv.store hopen, ?_, ?_, ?_, ?_⟩
    · intro item hin
      rw [hdestructs.work_queue] at hin
      obtain ⟨skinfo', sk, hskinfo', hsk⟩ := hinv.queue.tagged item hin
      have hne : skinfo' ≠ skinfo := by
        rintro rfl
        exact hserved _ hopen item hin hskinfo'
      refine ⟨skinfo', sk, hskinfo', ?_⟩
      rw [hdestructs.sockets, HashTable.lookup_erase_eq_ite, if_neg hne, hsk]
    · rw [hdestructs.work_queue]
      exact hinv.queue.nodup
    · intro item hin
      rw [hdestructs.work_queue] at hin
      rw [hdestructs.next_addr]
      exact hinv.queue.addr_lt item hin
    · intro item hin path e he
      rw [hdestructs.work_queue] at hin
      exact hinv.queue.unlisted item hin path e ((hdestructs.slist_sublist path).subset he)

/-- Every step of a thread succeeds and keeps the invariant, when clients are closed only once they are served. -/
theorem thread_step_invariant (pmlog : Pmlog) (hinv : s.ThreadInvariant) (hpermitted : s.ThreadPermitted step)
    (hserved : s.ClosesServed step) : ∃ s', s.thread_step pmlog step = some s' ∧ s'.ThreadInvariant := by
  cases step with
  | accept client_socket cred => exact ⟨_, rfl, accept_invariant hinv cred hpermitted⟩
  | receive client_socket req =>
    obtain ⟨⟨retval, s'⟩, hreq⟩ := process_client_req_success pmlog client_socket req hinv.store.linked
    exact ⟨s', by rw [thread_step, hreq, Option.map_some], receive_invariant hinv (process_client_req_step hreq)⟩
  | close client_socket io order => exact close_invariant hinv hpermitted hserved
  | work io now => exact worker_process_items_invariant io now hinv

theorem start_thread_invariant (files : String → ControlFile) : (start files).ThreadInvariant where
  store := (start_invariant files).store
  queue := by
    refine ⟨?_, List.nodup_nil, ?_, ?_⟩
    · simp [start]
    · simp [start]
    · simp [start]

end Steps

section Runs

variable {pmlog : Pmlog}

/-- In an interleaving in which no client is closed while a request of it is queued,
no request is processed after its socket record was destroyed, and no list holds
an entry of a destroyed record. -/
theorem no_use_after_destruct (pmlog : Pmlog) (files : String → ControlFile)
    (run : List (ThreadStep × Option Daemon)) (hrun : EachStep (Interleaved pmlog) (some (start files)) run)
    (hserved : EachStep (fun s step _ => ∀ d, s = some d → d.ClosesServed step) (some (start files)) run) :
    ∀ x ∈ run, ∃ d, x.2 = some d ∧ d.NoOrphans := by
  have hall := (hrun.and hserved).invariant (I := fun s => ∃ d, s = some d ∧ d.ThreadInvariant)
    ⟨_, rfl, start_thread_invariant files⟩ ?_
  · intro x hx
    obtain ⟨d, hd, hinv⟩ := hall x hx
    exact ⟨d, hd, hinv.store.balanced.no_orphans⟩
  · rintro s step s' ⟨⟨d, rfl, hpermitted, rfl⟩, hserved⟩ ⟨d', hd', hinv⟩
    cases hd'
    exact thread_step_invariant pmlog hinv hpermitted (hserved d rfl)

/-- The interleaving that takes the given steps. -/
def interleave (pmlog : Pmlog) (files : String → ControlFile) (steps : List ThreadStep) :
    List (ThreadStep × Option Daemon) :=
  run_of (fun step s => s.map (thread_step pmlog step)) steps (some (start files))

theorem interleave_steps {files : String → ControlFile} {steps : List ThreadStep}
    (h : EachStep (fun s step _ => ∀ d ∈ s, d.ThreadPermitted step) (some (start files))
      (interleave pmlog files steps)) :
    EachStep (Interleaved pmlog) (some (start files)) (interleave pmlog files steps) := by
  refine ((eachStep_run_of _ _ _).and h).imp fun s step s' h => ?_
  obtain ⟨d, rfl, rfl⟩ := Option.map_eq_some_iff.mp h.1
  exact ⟨d, rfl, h.2 d rfl, rfl⟩

/-- A client that asks for a frequency and is closed, before or after the worker has served it. -/
def closing_client (served : Bool) : List ThreadStep :=
  let request : SetReq := ⟨0, .FREQ_REQ, .UINT64, 0, ⟨5⟩, "scaling_setspeed"⟩
  [.accept 4 ⟨1000⟩, .receive 4 (.PwrAUTH .APP "app"), .receive 4 (.PwrSET request)] ++
    if served then [.work {} (1, 2), .close 4 {} [⟨1, request, some 0, 2⟩]] else [.close 4 {} [], .work {} (1, 2)]

theorem closing_client_permitted (served : Bool) :
    EachStep (Interleaved some) (some (start fun _ => .uint64 10))
      (interleave some (fun _ => .uint64 10) (closing_client served)) := by
  refine interleave_steps ?_
  cases served <;> decide

theorem no_use_after_destruct_served_client :
    (interleave some (fun _ => .uint64 10) (closing_client true)).length = (closing_client true).length ∧
    ∀ x ∈ interleave some (fun _ => .uint64 10) (closing_client true), ∃ d, x.2 = some d ∧ d.NoOrphans := by
  refine ⟨by decide, ?_⟩
  refine no_use_after_destruct some (fun _ => .uint64 10) _ (closing_client_permitted true) ?_
  have hserved : EachStep (fun s step _ => ∀ d ∈ s, d.ClosesServed step) (some (start fun _ => .uint64 10))
      (interleave some (fun _ => .uint64 10) (closing_client true)) := by decide
  exact hserved

/-- A client that is closed while its request is queued: the worker processes the request afterwards. -/
theorem use_after_destruct :
    ¬ ∀ files run, EachStep (Interleaved some) (some (start files)) run →
      ∀ x ∈ run, ∃ d, x.2 = some d ∧ d.NoOrphans := by
  intro hclaim
  have hfreed : ∃ x ∈ interleave some (fun _ => .uint64 10) (closing_client false), x.2.isNone = true := by decide
  obtain ⟨x, hx, hnone⟩ := hfreed
  obtain ⟨d, hd, _⟩ := hclaim _ _ (closing_client_permitted false) x hx
  rw [hd] at hnone
  cases hnone

end Runs

end Daemon

end pwrapi.daemon
