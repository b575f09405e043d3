import PowerApi.Daemon.Threads

open SortedList Execution

namespace pwrapi.daemon

namespace Daemon

/-- The connection of a socket record: its socket and the number of its next response. -/
def line (s : Daemon) (skinfo : Nat) : Option (Int × UInt64) :=
  (s.sockets.lookup skinfo).map fun sk => (sk.sockid, sk.seqnum)

/-- Nothing is sent and no response counter changes. -/
structure Silent (s s' : Daemon) : Prop where
  sent : s'.sent = s.sent
  line : ∀ skinfo, s'.line skinfo = s.line skinfo

/-- One response is sent to a socket, with the number of its counter. -/
structure Responds (skinfo : Nat) (written : Written) (s s' : Daemon) : Prop where
  sent : s'.sent = s.sent ++ [written]
  record : written.record = skinfo
  from_line : s.line skinfo = some (written.fd, written.resp.sequence)
  line : ∀ skinfo', s'.line skinfo' =
    if skinfo' = skinfo then some (written.fd, written.resp.sequence + 1) else s.line skinfo'

section Responses

variable {s s₁ s' : Daemon} {skinfo : Nat} {written : Written}

theorem Silent.refl (s : Daemon) : s.Silent s := ⟨rfl, fun _ => rfl⟩

theorem Silent.trans (h : s.Silent s₁) (h' : s₁.Silent s') : s.Silent s' :=
  ⟨h'.sent.trans h.sent, fun skinfo => (h'.line skinfo).trans (h.line skinfo)⟩

theorem Responds.of_silent (h' : s₁.Responds skinfo written s') (h : s.Silent s₁) : s.Responds skinfo written s' where
  sent := by rw [h'.sent, h.sent]
  record := h'.record
  from_line := (h.line skinfo).symm.trans h'.from_line
  line skinfo' := by rw [h'.line, h.line]

theorem update_hash_silent (s : Daemon) (hash : HashRef)
    (f : HashTable String SetInfo → HashTable String SetInfo) : s.Silent (s.update_hash hash f) := by
  obtain hsame | hdefs | ⟨skinfo, sk, hsk, hinsert⟩ := s.update_hash_cases hash f
  · rw [hsame]
    exact .refl s
  · rw [hdefs]
    exact ⟨rfl, fun _ => rfl⟩
  · rw [hinsert]
    refine ⟨rfl, fun skinfo' => ?_⟩
    rw [line, HashTable.lookup_insert_eq_ite]
    split
    · next h => rw [h, line, hsk, Option.map_some, Option.map_some]
    · rfl

theorem set_insert_silent (s : Daemon) (setp : SetInfo) (hash : HashRef) : s.Silent (s.set_insert setp hash) :=
  let h := s.update_hash_silent hash (·.insert setp.setreq.path setp)
  ⟨h.sent, h.line⟩

theorem set_remove_silent (s : Daemon) (setp : SetInfo) (hash : HashRef) : s.Silent (s.set_remove setp hash) :=
  let h := s.update_hash_silent hash (·.erase setp.setreq.path)
  ⟨h.sent, h.line⟩

theorem DefsetStep.silent {io : Io} {now : UInt64} {persist : Bool} {newset : SetInfo}
    (h : DefsetStep io now persist newset s s') : s.Silent s' := by
  obtain ⟨hsockets, _, _, hsent⟩ := h.frame
  exact ⟨hsent, fun skinfo => by rw [line, hsockets, line]⟩

theorem listed_silent (s : Daemon) (skinfo : Nat) (now : UInt64) (newset : SetInfo) :
    s.Silent (s.listed skinfo now newset) := by
  have hremove : s.Silent (s.worker_remove_oldset skinfo newset.setreq.path) := by
    obtain ⟨_, heq⟩ | ⟨oldset, _, heq⟩ := s.worker_remove_oldset_eq skinfo newset.setreq.path
    · rw [heq]
      exact .refl s
    · rw [heq]
      exact s.set_remove_silent oldset _
  have hclock : s.Silent { s.worker_remove_oldset skinfo newset.setreq.path with clock := now } :=
    ⟨hremove.sent, hremove.line⟩
  exact hclock.trans (set_insert_silent _ _ _)

theorem send_response_responds {resp : Response} (h : s.send_response skinfo resp = some s') :
    ∃ written, s.Responds skinfo written s' := by
  obtain ⟨sk, hsk, rfl⟩ := send_response_eq h
  refine ⟨_, rfl, rfl, by rw [line, hsk]; rfl, fun skinfo' => ?_⟩
  rw [line, HashTable.lookup_insert_eq_ite]
  split
  · rfl
  · rfl

/-- The worker sends one response for each request that it processes, whichever way it takes. -/
theorem worker_process_item_responds {io : Io} {now : UInt64 × UInt64} {newset : SetInfo}
    (hskinfo : newset.skinfo = some skinfo) (h : s.worker_process_item io now newset = some s') :
    ∃ written, s.Responds skinfo written s' := by
  obtain ⟨skinfo', sk, hskinfo', _, hcase⟩ := worker_process_item_cases h
  obtain rfl : skinfo' = skinfo := Option.some.inj (hskinfo'.symm.trans hskinfo)
  obtain ⟨_, hsend⟩ | ⟨s₁, hdef, happly⟩ := hcase
  · obtain ⟨written, hresponds⟩ := send_response_responds hsend
    have hsilent : s.Silent { s with io_failed := true } := ⟨rfl, fun _ => rfl⟩
    exact ⟨written, hresponds.of_silent hsilent⟩
  · obtain ⟨top, _, hsend⟩ := worker_apply_eq (s := s₁.listed skinfo' now.2 newset) happly
    obtain ⟨written, hresponds⟩ := send_response_responds hsend
    have hsilent := (worker_defset_step hdef).silent.trans (s₁.listed_silent skinfo' now.2 newset)
    exact ⟨written, hresponds.of_silent ⟨hsilent.sent, hsilent.line⟩⟩

end Responses

end Daemon

/-- A request as a connection's client knows it: the socket record and how many requests came before it. -/
structure Asked where
  record : Nat
  number : Nat
  deriving DecidableEq, Repr

/-- A response with the request that it was sent for. -/
structure Answer where
  request : Asked
  written : Written
  deriving DecidableEq, Repr

/-- The account of one connection: the answers sent on it and the requests that
wait in the queue, in terms of the number of requests received. -/
structure Ledger (record received : Nat) (answers : List Answer) (pending : List Asked) : Prop where
  /-- The k-th response answers the k-th request. -/
  requests : answers.map Answer.request = (List.range answers.length).map (Asked.mk record)
  /-- The k-th response has the sequence number k, as a 64-bit counter has it. -/
  sequence : answers.map (fun x => x.written.resp.sequence) = (List.range answers.length).map UInt64.ofNat
  /-- What is queued is what has not been answered, at most one request. -/
  pending : pending = (List.range' answers.length (received - answers.length)).map (Asked.mk record)
  answered : answers.length ≤ received
  waiting : received ≤ answers.length + 1

section Ledger

variable {record received : Nat} {answers : List Answer} {pending : List Asked} {written : Written}

theorem Ledger.append (h : Ledger record received answers pending)
    (hsequence : written.resp.sequence = UInt64.ofNat answers.length) :
    (answers ++ [Answer.mk ⟨record, answers.length⟩ written]).map Answer.request =
        (List.range (answers.length + 1)).map (Asked.mk record) ∧
      (answers ++ [Answer.mk ⟨record, answers.length⟩ written]).map (fun x => x.written.resp.sequence) =
        (List.range (answers.length + 1)).map UInt64.ofNat := by
  rw [List.range_succ, List.map_append, List.map_append, List.map_append, List.map_append, h.requests, h.sequence]
  simp [hsequence]

theorem Ledger.nothing_pending (h : Ledger record received answers pending) (hidle : answers.length = received) :
    pending = [] := by
  rw [h.pending, hidle, Nat.sub_self]
  rfl

/-- A request that is answered at once. -/
theorem Ledger.answer_now (h : Ledger record received answers pending) (hidle : answers.length = received)
    (hsequence : written.resp.sequence = UInt64.ofNat answers.length) :
    Ledger record (received + 1) (answers ++ [⟨⟨record, received⟩, written⟩]) pending := by
  obtain ⟨hrequests, hsequences⟩ := h.append hsequence
  rw [hidle] at hrequests hsequences
  refine ⟨?_, ?_, ?_, ?_, ?_⟩
  · simpa [hidle] using hrequests
  · simpa [hidle] using hsequences
  · simp [h.nothing_pending hidle, hidle]
  · simp [hidle]
  · simp [hidle]

/-- A request that is queued. -/
theorem Ledger.queue (h : Ledger record received answers pending) (hidle : answers.length = received) :
    Ledger record (received + 1) answers (pending ++ [⟨record, received⟩]) := by
  refine ⟨h.requests, h.sequence, ?_, ?_, ?_⟩
  · simp [h.nothing_pending hidle, hidle]
  · omega
  · omega

/-- The request that waits in the queue is answered. -/
theorem Ledger.work {request : Asked} {rest : List Asked} (h : Ledger record received answers (request :: rest))
    (hsequence : written.resp.sequence = UInt64.ofNat answers.length) :
    Ledger record received (answers ++ [⟨request, written⟩]) rest := by
  have hone : received = answers.length + 1 := by
    have hanswered := h.answered
    have hwaiting := h.waiting
    by_contra hne
    have hzero : received - answers.length = 0 := by omega
    have hpending := h.pending
    rw [hzero] at hpending
    cases hpending
  have hpending := h.pending
  rw [hone, Nat.add_sub_cancel_left, List.range'_one, List.map_singleton] at hpending
  obtain ⟨rfl, rfl⟩ := List.cons.inj hpending
  obtain ⟨hrequests, hsequences⟩ := h.append hsequence
  refine ⟨?_, ?_, ?_, ?_, ?_⟩
  · simpa using hrequests
  · simpa using hsequences
  · simp [hone]
  · simp [hone]
  · simp [hone]

end Ledger

/-- The daemon with an account of what it received and sent: how many requests each
socket record was heard with, which request each queued record stands for, by its
address, and which request each response was sent for. -/
structure Conversations where
  state : Daemon
  received : Nat → Nat := fun _ => 0
  asked : Nat → Asked := fun _ => ⟨0, 0⟩
  answers : List Answer := []

namespace Conversations

open Daemon (Pmlog)

/-- The answers sent on a connection, in order. -/
def answers_on (c : Conversations) (record : Nat) : List Answer :=
  c.answers.filter fun x => decide (x.written.record = record)

/-- The requests of a connection that wait in the queue, in order. -/
def pending (c : Conversations) (record : Nat) : List Asked :=
  (c.state.work_queue.filter fun item => decide (item.skinfo = some record)).map fun item => c.asked item.addr

/-- A step of a thread, with the account kept: responses sent while a request is
served or processed answer that request. -/
def converse (pmlog : Pmlog) (step : ThreadStep) (c : Conversations) : Option Conversations := do
  let state ← c.state.thread_step pmlog step
  let written := state.sent.drop c.state.sent.length
  match step with
  | .receive client_socket _ =>
    match c.state.open_sockets.lookup client_socket with
    | none => some { c with state }
    | some skinfo =>
      let request : Asked := ⟨skinfo, c.received skinfo⟩
      let queued := (state.work_queue.drop c.state.work_queue.length).map SetInfo.addr
      some {
        state
        received := Function.update c.received skinfo (c.received skinfo + 1)
        asked := fun addr => if addr ∈ queued then request else c.asked addr
        answers := c.answers ++ written.map (Answer.mk request) }
  | .work _ _ =>
    match c.state.work_queue with
    | [] => some { c with state }
    | item :: _ => some { c with state, answers := c.answers ++ written.map (Answer.mk (c.asked item.addr)) }
  | _ => some { c with state }

/-- A client sends a request on an accepted connection, or closes it, only when
everything that it asked before has been answered. -/
def Waits (c : Conversations) : ThreadStep → Prop
  | .receive client_socket _ => ∃ skinfo ∈ c.state.open_sockets.lookup client_socket,
    (c.answers_on skinfo).length = c.received skinfo
  | .close client_socket _ _ => ∀ skinfo ∈ c.state.open_sockets.lookup client_socket,
    (c.answers_on skinfo).length = c.received skinfo
  | _ => True

instance (c : Conversations) (step : ThreadStep) : Decidable (c.Waits step) :=
  match step with
  | .accept _ _ => .isTrue trivial
  | .receive client_socket _ => inferInstanceAs (Decidable (∃ skinfo ∈ c.state.open_sockets.lookup client_socket,
      (c.answers_on skinfo).length = c.received skinfo))
  | .close client_socket _ _ => inferInstanceAs (Decidable (∀ skinfo ∈ c.state.open_sockets.lookup client_socket,
      (c.answers_on skinfo).length = c.received skinfo))
  | .work _ _ => .isTrue trivial

/-- A step of an interleaving in which clients wait for their answers. -/
def ConverseStep (pmlog : Pmlog) (c : Conversations) (step : ThreadStep) (c' : Conversations) : Prop :=
  c.state.ThreadPermitted step ∧ c.Waits step ∧ c.converse pmlog step = some c'

/-- The account of every connection balances. -/
structure Accounted (c : Conversations) : Prop where
  threads : c.state.ThreadInvariant
  ledger : ∀ record, Ledger record (c.received record) (c.answers_on record) (c.pending record)
  fresh : ∀ record, c.state.next_addr ≤ record → c.received record = 0
  lines : ∀ record fd number, c.state.line record = some (fd, number) →
    number = UInt64.ofNat (c.answers_on record).length ∧ ∀ x ∈ c.answers_on record, x.written.fd = fd

section Steps

variable {pmlog : Pmlog} {c : Conversations} {state : Daemon} {record : Nat}

theorem answers_on_append (c : Conversations) (answer : Answer) (record : Nat) :
    ({ c with answers := c.answers ++ [answer] } : Conversations).answers_on record =
      if answer.written.record = record then c.answers_on record ++ [answer] else c.answers_on record := by
  simp only [answers_on, List.filter_append, List.filter_cons, List.filter_nil]
  split <;> simp_all

theorem Accounted.no_answers (h : c.Accounted) (hrecord : c.state.next_addr ≤ record) : c.answers_on record = [] := by
  have hanswered := (h.ledger record).answered
  rw [h.fresh record hrecord] at hanswered
  exact List.length_eq_zero_iff.mp (Nat.le_zero.mp hanswered)

/-- Where everything is answered, nothing is queued. -/
theorem Accounted.not_queued (h : c.Accounted) (hidle : (c.answers_on record).length = c.received record) :
    ∀ item ∈ c.state.work_queue, item.skinfo ≠ some record := by
  intro item hitem howner
  have hnone := (h.ledger record).nothing_pending hidle
  rw [pending, List.map_eq_nil_iff, List.filter_eq_nil_iff] at hnone
  exact hnone item hitem (by simpa using howner)

/-- A step that sends nothing, queues nothing and opens no old connection again keeps the account. -/
theorem Accounted.quiet (h : c.Accounted) (hthreads : state.ThreadInvariant)
    (hqueue : state.work_queue = c.state.work_queue) (hnext : c.state.next_addr ≤ state.next_addr)
    (hline : ∀ record fd number, state.line record = some (fd, number) →
      c.state.line record = some (fd, number) ∨ (c.state.next_addr ≤ record ∧ number = 0)) :
    ({ c with state } : Conversations).Accounted where
  threads := hthreads
  ledger record := by
    have hledger := h.ledger record
    rwa [pending, ← hqueue] at hledger
  fresh record hrecord := h.fresh record (hnext.trans hrecord)
  lines record fd number hnumber := by
    obtain hold | ⟨hnew, rfl⟩ := hline record fd number hnumber
    · exact h.lines record fd number hold
    · have hnone := h.no_answers hnew
      change (0 : UInt64) = UInt64.ofNat (c.answers_on record).length ∧ ∀ x ∈ c.answers_on record, x.written.fd = fd
      rw [hnone]
      exact ⟨rfl, by simp⟩

/-- One response on a connection keeps the lines in step with the answers. -/
theorem Accounted.lines_append (h : c.Accounted) {skinfo : Nat} {written : Written}
    (hresponds : c.state.Responds skinfo written state) (request : Asked) (fd : Int) (number : UInt64)
    (hline : state.line record = some (fd, number)) :
    let answers_on := ({ c with answers := c.answers ++ [⟨request, written⟩] } : Conversations).answers_on record
    number = UInt64.ofNat answers_on.length ∧ ∀ x ∈ answers_on, x.written.fd = fd := by
  obtain ⟨hsequence, hfds⟩ := h.lines skinfo _ _ hresponds.from_line
  simp only [answers_on_append, hresponds.record]
  rw [hresponds.line] at hline
  by_cases hrecord : record = skinfo
  · subst hrecord
    simp only [if_true, Option.some.injEq, Prod.mk.injEq] at hline ⊢
    obtain ⟨rfl, rfl⟩ := hline
    refine ⟨?_, fun x hx => ?_⟩
    · rw [hsequence, List.length_append, UInt64.ofNat_add]
      rfl
    · obtain hx | hx := List.mem_append.mp hx
      · exact hfds x hx
      · rw [List.mem_singleton.mp hx]
  · rw [if_neg hrecord] at hline
    rw [if_neg (Ne.symm hrecord)]
    exact h.lines record fd number hline

/-- The sequence number of a response is the number of answers before it. -/
theorem Accounted.sequence (h : c.Accounted) {skinfo : Nat} {written : Written}
    (hresponds : c.state.Responds skinfo written state) :
    written.resp.sequence = UInt64.ofNat (c.answers_on skinfo).length :=
  (h.lines skinfo _ _ hresponds.from_line).1

theorem Accounted.answer_now (h : c.Accounted) (hthreads : state.ThreadInvariant) {skinfo : Nat} {written : Written}
    (hresponds : c.state.Responds skinfo written state) (hqueue : state.work_queue = c.state.work_queue)
    (hnext : state.next_addr = c.state.next_addr) (hlt : skinfo < c.state.next_addr)
    (hidle : (c.answers_on skinfo).length = c.received skinfo) :
    ({ c with
      state
      received := Function.update c.received skinfo (c.received skinfo + 1)
      answers := c.answers ++ [⟨⟨skinfo, c.received skinfo⟩, written⟩] } : Conversations).Accounted where
  threads := hthreads
  ledger record := by
    have hanswers := c.answers_on_append ⟨⟨skinfo, c.received skinfo⟩, written⟩ record
    simp only [answers_on, hresponds.record] at hanswers
    simp only [answers_on, pending, hqueue, hanswers]
    by_cases hrecord : record = skinfo
    · subst hrecord
      rw [if_pos rfl, Function.update_self]
      exact (h.ledger record).answer_now hidle (h.sequence hresponds)
    · rw [if_neg (Ne.symm hrecord), Function.update_of_ne hrecord]
      exact h.ledger record
  fresh record hrecord := by
    have hle : c.state.next_addr ≤ record := hnext ▸ hrecord
    have hne : record ≠ skinfo := by omega
    exact (Function.update_of_ne hne _ _).trans (h.fresh record hle)
  lines record fd number hline := h.lines_append hresponds _ fd number hline

theorem Accounted.queue (h : c.Accounted) (hthreads : state.ThreadInvariant) {item : SetInfo} {skinfo : Nat}
    (hline : ∀ record, state.line record = c.state.line record) (hskinfo : item.skinfo = some skinfo)
    (hqueue : state.work_queue = c.state.work_queue ++ [item]) (hitem : item.addr = c.state.next_addr)
    (hnext : state.next_addr = c.state.next_addr + 1) (hlt : skinfo < c.state.next_addr)
    (hidle : (c.answers_on skinfo).length = c.received skinfo) :
    ({ c with
      state
      received := Function.update c.received skinfo (c.received skinfo + 1)
      asked := fun addr => if addr ∈ [item.addr] then ⟨skinfo, c.received skinfo⟩ else c.asked addr } :
        Conversations).Accounted where
  threads := hthreads
  ledger record := by
    have hold : (c.state.work_queue.filter fun x => decide (x.skinfo = some record)).map
        (fun x => if x.addr ∈ [item.addr] then (⟨skinfo, c.received skinfo⟩ : Asked) else c.asked x.addr) =
          c.pending record := by
      refine List.map_congr_left fun x hx => if_neg ?_
      have hx_lt := h.threads.queue.addr_lt x (List.mem_filter.mp hx).1
      rw [List.mem_singleton, hitem]
      omega
    simp only [answers_on, pending, hqueue, List.filter_append, List.map_append, hold]
    by_cases hrecord : record = skinfo
    · subst hrecord
      rw [Function.update_self]
      have hledger := (h.ledger record).queue hidle
      simp only [hskinfo, decide_true, List.filter_cons_of_pos, List.filter_nil, List.map_cons, List.map_nil,
        List.mem_singleton, if_true]
      exact hledger
    · have hother : item.skinfo ≠ some record := by
        rw [hskinfo]
        exact fun heq => hrecord (Option.some.inj heq).symm
      rw [Function.update_of_ne hrecord, List.filter_cons_of_neg (by simpa using hother), List.filter_nil,
        List.map_nil, List.append_nil]
      exact h.ledger record
  fresh record hrecord := by
    have hle : c.state.next_addr + 1 ≤ record := hnext ▸ hrecord
    have hne : record ≠ skinfo := by omega
    exact (Function.update_of_ne hne _ _).trans (h.fresh record (by omega))
  lines record fd number hnumber := h.lines record fd number (hline record ▸ hnumber)

theorem Accounted.work (h : c.Accounted) (hthreads : state.ThreadInvariant) {item : SetInfo} {rest : List SetInfo}
    {skinfo : Nat} {written : Written} (hresponds : c.state.Responds skinfo written state)
    (hskinfo : item.skinfo = some skinfo) (hold : c.state.work_queue = item :: rest)
    (hqueue : state.work_queue = rest) (hnext : c.state.next_addr ≤ state.next_addr) :
    ({ c with state, answers := c.answers ++ [⟨c.asked item.addr, written⟩] } : Conversations).Accounted where
  threads := hthreads
  ledger record := by
    have hanswers := c.answers_on_append ⟨c.asked item.addr, written⟩ record
    have hledger := h.ledger record
    simp only [answers_on, hresponds.record] at hanswers
    rw [pending, hold] at hledger
    simp only [answers_on, pending, hqueue, hanswers]
    by_cases hrecord : record = skinfo
    · subst hrecord
      rw [List.filter_cons_of_pos (by simpa using hskinfo), List.map_cons] at hledger
      rw [if_pos rfl]
      exact hledger.work (h.sequence hresponds)
    · have hother : item.skinfo ≠ some record := by
        rw [hskinfo]
        exact fun heq => hrecord (Option.some.inj heq).symm
      rw [List.filter_cons_of_neg (by simpa using hother)] at hledger
      rw [if_neg (Ne.symm hrecord)]
      exact hledger
  fresh record hrecord := h.fresh record (hnext.trans hrecord)
  lines record fd number hline := h.lines_append hresponds _ fd number hline

end Steps

section Converse

variable {pmlog : Pmlog} {c : Conversations} {step : ThreadStep}

theorem converse_accept (h : c.Accounted) (client_socket : Int) (cred : Ucred)
    (hfresh : c.state.open_sockets.lookup client_socket = none) :
    ∃ c', c.converse pmlog (.accept client_socket cred) = some c' ∧ c'.Accounted := by
  refine ⟨_, rfl, h.quiet (Daemon.accept_invariant h.threads cred hfresh) rfl (Nat.le_succ _) ?_⟩
  intro record fd number hline
  rw [Daemon.line, Daemon.socket_construct, HashTable.lookup_insert_eq_ite] at hline
  split at hline
  · next heq =>
    cases hline
    exact Or.inr ⟨heq.ge, rfl⟩
  · exact Or.inl hline

theorem converse_close (h : c.Accounted) {client_socket : Int} {io : Io} {order : List SetInfo}
    (horder : c.state.IterationOrder order client_socket) (hwaits : c.Waits (.close client_socket io order)) :
    ∃ c', c.converse pmlog (.close client_socket io order) = some c' ∧ c'.Accounted := by
  cases hopen : c.state.open_sockets.lookup client_socket with
  | none =>
    have hsame : c.state.socket_destruct io order client_socket = some c.state := by
      rw [Daemon.socket_destruct, hopen]
    exact ⟨c, by simp [converse, Daemon.thread_step, hsame], h⟩
  | some skinfo =>
    have hserved : c.state.ClosesServed (.close client_socket io order) := by
      intro skinfo' hopen' item hitem
      exact h.not_queued (hwaits skinfo' hopen') item hitem
    obtain ⟨state, hdestruct, hthreads⟩ := Daemon.close_invariant h.threads horder hserved
    have hstate := hdestruct
    rw [Daemon.socket_destruct_eq io horder h.threads.store hopen, Option.some.injEq] at hstate
    have hdestructs := Daemon.destructed_destructs io horder h.threads.store hopen
    rw [hstate] at hdestructs
    refine ⟨{ c with state }, by simp [converse, Daemon.thread_step, hdestruct], ?_⟩
    refine h.quiet hthreads hdestructs.work_queue hdestructs.next_addr.ge fun record fd number hline => Or.inl ?_
    rw [Daemon.line, hdestructs.sockets, HashTable.lookup_erase_eq_ite] at hline
    split at hline
    · cases hline
    · exact hline

theorem converse_receive (h : c.Accounted) {client_socket : Int} {req : Request}
    (hwaits : c.Waits (.receive client_socket req)) :
    ∃ c', c.converse pmlog (.receive client_socket req) = some c' ∧ c'.Accounted := by
  obtain ⟨skinfo, hopen, hidle⟩ := hwaits
  obtain ⟨⟨retval, state⟩, hreq⟩ :=
    Daemon.process_client_req_success pmlog client_socket req h.threads.store.linked
  have hstep := Daemon.process_client_req_step hreq
  have hthreads := Daemon.receive_invariant h.threads hstep
  have hopen' : c.state.open_sockets.lookup client_socket = some skinfo := hopen
  simp only [converse, Daemon.thread_step, hreq, Option.map_some, Option.bind_eq_bind, Option.bind_some, hopen']
  refine ⟨_, rfl, ?_⟩
  cases hstep with
  | unknown hnone =>
    rw [hnone] at hopen'
    cases hopen'
  | answered skinfo' sk sk' resp hopen'' hsk hsockid hcred hchanges hseqnum hresp =>
    obtain rfl : skinfo' = skinfo := Option.some.inj (hopen''.symm.trans hopen')
    have hresponds : c.state.Responds skinfo' { record := skinfo', fd := sk.sockid, resp }
        { c.state with
          sockets := c.state.sockets.insert skinfo' sk'
          sent := c.state.sent ++ [{ record := skinfo', fd := sk.sockid, resp }] } := by
      refine ⟨rfl, rfl, by rw [Daemon.line, hsk, hresp]; rfl, fun record => ?_⟩
      rw [Daemon.line, HashTable.lookup_insert_eq_ite]
      split
      · rw [Option.map_some, hsockid, hseqnum, hresp]
      · rfl
    have haccounted := h.answer_now hthreads hresponds rfl rfl (h.threads.store.linked.addr_lt _ sk hsk) hidle
    simpa using haccounted
  | queued skinfo' sk set hset hopen'' hsk hrole =>
    obtain rfl : skinfo' = skinfo := Option.some.inj (hopen''.symm.trans hopen')
    have haccounted := h.queue hthreads (fun _ => rfl) rfl rfl rfl rfl
      (h.threads.store.linked.addr_lt _ sk hsk) hidle
    simpa using haccounted

theorem converse_work (pmlog : Pmlog) (h : c.Accounted) (io : Io) (now : UInt64 × UInt64) :
    ∃ c', c.converse pmlog (.work io now) = some c' ∧ c'.Accounted ∧
      c'.state.work_queue = c.state.work_queue.tail ∧ c'.received = c.received := by
  obtain ⟨state, hwork, hthreads⟩ := Daemon.worker_process_items_invariant io now h.threads
  simp only [converse, Daemon.thread_step, hwork, Option.bind_eq_bind, Option.bind_some]
  cases hqueue : c.state.work_queue with
  | nil =>
    rw [Daemon.worker_process_items_idle io now hqueue, Option.some.injEq] at hwork
    subst hwork
    exact ⟨_, rfl, h, hqueue, rfl⟩
  | cons item rest =>
    obtain ⟨skinfo, sk, hskinfo, hsk⟩ := h.threads.queue.tagged item (by simp [hqueue])
    simp only [Daemon.worker_process_items, hqueue, hskinfo, reduceCtorEq, if_false] at hwork
    obtain ⟨written, hresponds⟩ := Daemon.worker_process_item_responds hskinfo hwork
    have hunlisted : ({ c.state with work_queue := rest } : Daemon).Unlisted item :=
      h.threads.queue.unlisted item (by simp [hqueue]) item.setreq.path
    obtain ⟨_, hkeeps⟩ := Daemon.worker_process_item_invariant (h.threads.store.with_queue rest) hunlisted
      (h.threads.queue.addr_lt item (by simp [hqueue])) hwork
    have hresponds' : c.state.Responds skinfo written state := hresponds.of_silent ⟨rfl, fun _ => rfl⟩
    have haccounted := h.work hthreads hresponds' hskinfo hqueue hkeeps.work_queue hkeeps.next_addr
    refine ⟨_, rfl, ?_, hkeeps.work_queue, rfl⟩
    simpa [hresponds'.sent] using haccounted

/-- Every step that clients who wait can cause succeeds and keeps the account. -/
theorem converse_step (pmlog : Pmlog) (h : c.Accounted) (hpermitted : c.state.ThreadPermitted step)
    (hwaits : c.Waits step) : ∃ c', c.converse pmlog step = some c' ∧ c'.Accounted := by
  cases step with
  | accept client_socket cred => exact converse_accept h client_socket cred hpermitted
  | receive client_socket req => exact converse_receive h hwaits
  | close client_socket io order => exact converse_close h hpermitted hwaits
  | work io now =>
    obtain ⟨c', hconverse, haccounted, _⟩ := converse_work pmlog h io now
    exact ⟨c', hconverse, haccounted⟩

end Converse

section Runs

variable {pmlog : Pmlog} {c : Conversations}

/-- The account of a daemon that has just started. -/
def begin_with (files : String → ControlFile) : Conversations := { state := Daemon.start files }

theorem begin_with_accounted (files : String → ControlFile) : (begin_with files).Accounted where
  threads := Daemon.start_thread_invariant files
  ledger record := by
    refine ⟨rfl, rfl, rfl, ?_, ?_⟩
    · simp [begin_with, answers_on]
    · simp [begin_with]
  fresh record _ := rfl
  lines record fd number hline := by simp [begin_with, Daemon.line, Daemon.start] at hline

/-- The worker's next steps, with the outcomes and times of each. -/
def work_off (pmlog : Pmlog) : List (Io × UInt64 × UInt64) → Conversations → Option Conversations
  | [], c => some c
  | (io, now) :: rest, c => c.converse pmlog (.work io now) >>= work_off pmlog rest

/-- As many steps of the worker as there are queued requests answer all of them. -/
theorem work_off_answers (outcomes : List (Io × UInt64 × UInt64)) (h : c.Accounted)
    (hlength : outcomes.length = c.state.work_queue.length) :
    ∃ c', work_off pmlog outcomes c = some c' ∧
      ∀ record, (c'.answers_on record).length = c.received record := by
  induction outcomes generalizing c with
  | nil =>
    have hqueue : c.state.work_queue = [] := List.length_eq_zero_iff.mp hlength.symm
    refine ⟨c, rfl, fun record => ?_⟩
    have hledger := h.ledger record
    have hpending := hledger.pending
    rw [pending, hqueue, List.filter_nil, List.map_nil, eq_comm, List.map_eq_nil_iff,
      List.range'_eq_nil_iff] at hpending
    exact Nat.le_antisymm hledger.answered (Nat.le_of_sub_eq_zero hpending)
  | cons outcome rest ih =>
    obtain ⟨c₁, hconverse, haccounted, hqueue, hreceived⟩ := converse_work pmlog h outcome.1 outcome.2
    have hrest : rest.length = c₁.state.work_queue.length := by
      rw [hqueue, List.length_tail, ← hlength, List.length_cons, Nat.add_sub_cancel]
    obtain ⟨c', hwork, hanswers⟩ := ih haccounted hrest
    refine ⟨c', by rw [work_off, hconverse]; exact hwork, fun record => ?_⟩
    rw [hanswers, hreceived]

/-- While clients wait for their answers, every request received on a connection is
answered once, on that connection and in order, by the main thread or by the worker;
what has no answer yet waits in the queue, and the worker's next steps answer it. -/
theorem each_request_answered (pmlog : Pmlog) (files : String → ControlFile) (run : List (ThreadStep × Conversations))
    (hrun : EachStep (ConverseStep pmlog) (begin_with files) run) :
    ∀ x ∈ run,
      (∀ record, Ledger record (x.2.received record) (x.2.answers_on record) (x.2.pending record)) ∧
      (∀ record sk, x.2.state.sockets.lookup record = some sk →
        ∀ answer ∈ x.2.answers_on record, answer.written.fd = sk.sockid) ∧
      (∀ step, x.2.state.ThreadPermitted step → x.2.Waits step → ∃ c', x.2.converse pmlog step = some c') ∧
      ∀ outcomes : List (Io × UInt64 × UInt64), outcomes.length = x.2.state.work_queue.length →
        ∃ c', work_off pmlog outcomes x.2 = some c' ∧
          ∀ record, (c'.answers_on record).length = x.2.received record := by
  have haccounted := hrun.invariant (begin_with_accounted files) ?_
  · intro x hx
    have h := haccounted x hx
    refine ⟨h.ledger, fun record sk hsk => ?_, fun step hpermitted hwaits => ?_,
      fun outcomes => work_off_answers outcomes h⟩
    · exact (h.lines record sk.sockid sk.seqnum (by rw [Daemon.line, hsk, Option.map_some])).2
    · obtain ⟨c', hconverse, _⟩ := converse_step pmlog h hpermitted hwaits
      exact ⟨c', hconverse⟩
  · rintro c step c' ⟨hpermitted, hwaits, hconverse⟩ h
    obtain ⟨c₁, hconverse₁, h₁⟩ := converse_step pmlog h hpermitted hwaits
    rw [hconverse, Option.some.injEq] at hconverse₁
    exact hconverse₁ ▸ h₁

/-- Two clients: one is answered at once while a request of the other waits in the queue. -/
def two_clients : List ThreadStep :=
  let request : SetReq := ⟨0, .FREQ_REQ, .UINT64, 0, ⟨5⟩, "scaling_setspeed"⟩
  [.accept 4 ⟨1000⟩, .accept 5 ⟨1000⟩, .receive 4 (.PwrAUTH .APP "app"), .receive 5 .PwrDUMP,
    .receive 4 (.PwrSET request), .receive 5 (.PwrSET request), .work {} (1, 2), .receive 4 .PwrDUMP,
    .close 4 {} [⟨2, request, some 0, 2⟩]]

theorem each_request_answered_two_clients :
    (run_of (converse some) two_clients (begin_with fun _ => .uint64 10)).length = two_clients.length ∧
    ∀ x ∈ run_of (converse some) two_clients (begin_with fun _ => .uint64 10),
      ∀ record, Ledger record (x.2.received record) (x.2.answers_on record) (x.2.pending record) := by
  have hallowed : EachStep (fun c step _ => c.state.ThreadPermitted step ∧ c.Waits step)
      (begin_with fun _ => .uint64 10) (run_of (converse some) two_clients (begin_with fun _ => .uint64 10)) := by
    decide
  have hrun := ((eachStep_run_of (converse some) _ two_clients).and hallowed).imp
    (S := ConverseStep some) fun c step c' h => ⟨h.2.1, h.2.2, h.1⟩
  exact ⟨by decide, fun x hx => (each_request_answered some _ _ hrun x hx).1⟩

end Runs

end Conversations

end pwrapi.daemon
