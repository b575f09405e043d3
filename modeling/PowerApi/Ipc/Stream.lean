import PowerApi.Lib.Execution
import PowerApi.Ipc.Socket

open Execution

namespace pwrapi.ipc

/-- A byte of a request, known by the call that sent it and its place in the request. -/
structure RequestByte where
  call : Nat
  req : Request
  offset : Nat
  deriving DecidableEq, Repr

/-- A byte of a response, known by the record that it answers and its place in the response. -/
structure ResponseByte where
  record : Nat
  offset : Nat
  deriving DecidableEq, Repr

def request_bytes (call : Nat) (req : Request) : List RequestByte :=
  (List.range sizeof_request).map fun offset => ⟨call, req, offset⟩

def response_bytes (record : Nat) : List ResponseByte :=
  (List.range sizeof_response).map fun offset => ⟨record, offset⟩

/-- A whole response as a call received it. -/
structure Received where
  call : Nat
  buffer : List ResponseByte
  deriving DecidableEq, Repr

/-- What happens around the system calls of one set call: how many bytes the write
takes, if it does not fail, what the daemon does before the read returns, and how
many bytes the read delivers, if it does not fail. -/
structure Events where
  write : Option Nat := none
  turns : List Response := []
  read : Option Nat := none
  deriving DecidableEq, Repr

/-- An authenticated connection between the plugin and the daemon. `records` and
`answers` are the records that the daemon has read since and its responses to them;
`returned` holds the status of each call. -/
structure Stream where
  to_daemon : List RequestByte := []
  from_daemon : List ResponseByte := []
  records : List (List RequestByte) := []
  answers : List Response := []
  closed : Bool := false
  received : List Received := []
  returned : List Int := []
  events : Events := {}

namespace Stream

/-- The number of the call that is being made. -/
def call (s : Stream) : Nat := s.returned.length

/-- The daemon finds its socket ready: it answers a whole record with the next
number (PwrAUTH was answered with number 0), or closes the socket on a short read. -/
def daemon_turn (s : Stream) (resp : Response) : Stream :=
  if s.closed ∨ s.to_daemon = [] then s
  else if s.to_daemon.length < sizeof_request then { s with to_daemon := [], closed := true }
  else { s with
    to_daemon := s.to_daemon.drop sizeof_request
    from_daemon := s.from_daemon ++ response_bytes s.records.length
    records := s.records ++ [s.to_daemon.take sizeof_request]
    answers := s.answers ++ [{ resp with sequence := UInt64.ofNat (s.answers.length + 1) }] }

def daemon_turns (turns : List Response) (s : Stream) : Stream := turns.foldl daemon_turn s

/-- What a read buffer holds, where `mixed` says what bytes of several responses look like. -/
def decode (mixed : List ResponseByte → Response) (buffer : List ResponseByte) (s : Stream) : Response :=
  match buffer with
  | [] => mixed []
  | b :: _ => if buffer = response_bytes b.record then s.answers.getD b.record (mixed buffer) else mixed buffer

def write (req : Request) (s : Stream) : Int × Stream :=
  match s.events.write with
  | none => (-1, s)
  | some n => (n, { s with to_daemon := s.to_daemon ++ (request_bytes s.call req).take n })

def read (mixed : List ResponseByte → Response) (s : Stream) : (Int × Response) × Stream :=
  let events := s.events
  let s := s.daemon_turns events.turns
  match events.read with
  | none => ((-1, { retval := 0 }), s)
  | some n =>
    let buffer := s.from_daemon.take n
    ((n, s.decode mixed buffer), { s with
      from_daemon := s.from_daemon.drop n
      received := if n = sizeof_response then s.received ++ [⟨s.call, buffer⟩] else s.received })

/-- A call with the events that happen around it. -/
def with_events (events : Events) (s : Stream) : Stream := { s with events }

/-- A call returns its status. -/
def return_status (status : Int) (s : Stream) : Stream := { s with returned := s.returned ++ [status] }

end Stream

/-- The system calls on one connection; no other socket can be had. -/
def stream (mixed : List ResponseByte → Response) : System Stream where
  socket s := (-1, s)
  connect _ _ s := (-1, s)
  write _ req s := s.write req
  read _ s := s.read mixed
  close _ s := { s with closed := true }

/-- A step of the plugin and the daemon together: a set call, or the daemon's next turn. -/
inductive StreamStep where
  | set (call : Call) (events : Events)
  | daemon (resp : Response)
  deriving DecidableEq

def exchange (mixed : List ResponseByte → Response) (step : StreamStep) (ipc : Ipc Stream) : Option (Ipc Stream) :=
  match step with
  | .set call events => do
    let (status, ipc) ← perform (stream mixed) call { ipc with os := ipc.os.with_events events }
    some { ipc with os := ipc.os.return_status status }
  | .daemon resp => some { ipc with os := ipc.os.daemon_turn resp }

/-- A write takes at most the request, and fails once the daemon has closed the
socket; a read delivers at most a response, and only bytes that have arrived. -/
def StreamPermitted (ipc : Ipc Stream) : StreamStep → Prop
  | .set call events =>
    call ≠ .destruct ∧ ∀ req ∈ sent_request call,
      (∀ n ∈ events.write, n ≤ sizeof_request ∧ ipc.os.closed = false) ∧
      ∀ n ∈ events.read, n ≤ sizeof_response ∧
        n ≤ (((ipc.os.with_events events).write req).2.daemon_turns events.turns).from_daemon.length
  | .daemon _ => True

instance (ipc : Ipc Stream) (step : StreamStep) : Decidable (StreamPermitted ipc step) :=
  match step with
  | .set call events => inferInstanceAs (Decidable (call ≠ .destruct ∧ ∀ req ∈ sent_request call,
      (∀ n ∈ events.write, n ≤ sizeof_request ∧ ipc.os.closed = false) ∧
      ∀ n ∈ events.read, n ≤ sizeof_response ∧
        n ≤ (((ipc.os.with_events events).write req).2.daemon_turns events.turns).from_daemon.length))
  | .daemon _ => .isTrue trivial

def ExchangeStep (mixed : List ResponseByte → Response) (ipc : Ipc Stream) (step : StreamStep) (ipc' : Ipc Stream) :
    Prop :=
  StreamPermitted ipc step ∧ exchange mixed step ipc = some ipc'

/-- Every whole response that a call received is the daemon's answer to the very
request of that call, and the call returned its status. -/
def Paired (s : Stream) : Prop :=
  ∀ x ∈ s.received, ∃ k req resp, x.buffer = response_bytes k ∧ s.records[k]? = some (request_bytes x.call req) ∧
    s.answers[k]? = some resp ∧ s.returned[x.call]? = some resp.retval

/-- Nothing is under way in either direction. -/
def InStep (s : Stream) : Prop := s.to_daemon = [] ∧ s.from_daemon = []

instance (s : Stream) : Decidable (InStep s) := inferInstanceAs (Decidable (_ ∧ _))

/-- A call that writes its request whole and reads a whole response is made only
when nothing is left under way from the calls before it. -/
def StaysInStep (ipc : Ipc Stream) : StreamStep → Prop
  | .set call events =>
    (sent_request call).isSome → events.write = some sizeof_request → events.read = some sizeof_response →
      InStep ipc.os
  | .daemon _ => True

instance (ipc : Ipc Stream) (step : StreamStep) : Decidable (StaysInStep ipc step) :=
  match step with
  | .set call events => inferInstanceAs (Decidable ((sent_request call).isSome → events.write = some sizeof_request →
      events.read = some sizeof_response → InStep ipc.os))
  | .daemon _ => .isTrue trivial

/-- The invariant of the connection, with a bound on the calls whose bytes have been written. -/
structure StreamInvariant (bound : Nat) (s : Stream) : Prop where
  answers : s.answers.length = s.records.length
  /-- What has not been read yet is the rest of the responses. -/
  unread : ∃ read, read ++ s.from_daemon = (List.range s.records.length).flatMap response_bytes
  earlier_records : ∀ bytes ∈ s.records, ∀ b ∈ bytes, b.call < bound
  earlier_bytes : ∀ b ∈ s.to_daemon, b.call < bound

/-- What turns of the daemon do: they read whole records from the front of what is
under way and answer each. -/
structure Turned (s : Stream) (more : List (List RequestByte)) (s' : Stream) : Prop where
  records : s'.records = s.records ++ more
  whole : ∀ bytes ∈ more, bytes.length = sizeof_request
  taken : more.flatten ++ s'.to_daemon <+: s.to_daemon
  answered : s'.from_daemon = s.from_daemon ++ (List.range' s.records.length more.length).flatMap response_bytes
  answers : ∃ resps, s'.answers = s.answers ++ resps ∧ resps.length = more.length
  received : s'.received = s.received
  returned : s'.returned = s.returned

section Bytes

@[simp] theorem request_bytes_length (call : Nat) (req : Request) :
    (request_bytes call req).length = sizeof_request := by simp [request_bytes]

@[simp] theorem response_bytes_length (record : Nat) :
    (response_bytes record).length = sizeof_response := by simp [response_bytes]

theorem request_bytes_eq_cons (call : Nat) (req : Request) :
    ∃ rest, request_bytes call req = ⟨call, req, 0⟩ :: rest := by
  have hsize : sizeof_request = 4127 + 1 := rfl
  rw [request_bytes, hsize, List.range_succ_eq_map, List.map_cons]
  exact ⟨_, rfl⟩

theorem response_bytes_eq_cons (record : Nat) : ∃ rest, response_bytes record = ⟨record, 0⟩ :: rest := ⟨_, rfl⟩

theorem mem_request_bytes {call : Nat} {req : Request} {b : RequestByte} (h : b ∈ request_bytes call req) :
    b.call = call := by
  obtain ⟨offset, _, rfl⟩ := List.mem_map.mp h
  rfl

theorem flatMap_response_bytes_length (m n : Nat) :
    ((List.range' m n).flatMap response_bytes).length = n * sizeof_response := by
  induction n generalizing m with
  | zero => simp
  | succ n ih =>
    rw [List.range'_succ, List.flatMap_cons, List.length_append, ih, response_bytes_length, Nat.succ_mul,
      Nat.add_comm]

/-- The responses one after the other. -/
theorem flatMap_response_bytes_getElem? (m n i : Nat) (hi : i < n * sizeof_response) :
    ((List.range' m n).flatMap response_bytes)[i]? = some ⟨m + i / sizeof_response, i % sizeof_response⟩ := by
  induction n generalizing m i with
  | zero => omega
  | succ n ih =>
    have hsize : 0 < sizeof_response := by decide
    rw [List.range'_succ, List.flatMap_cons, List.getElem?_append, response_bytes_length]
    by_cases hfirst : i < sizeof_response
    · rw [if_pos hfirst, Nat.div_eq_of_lt hfirst, Nat.mod_eq_of_lt hfirst]
      simp [response_bytes, hfirst]
    · obtain ⟨j, rfl⟩ := Nat.exists_eq_add_of_le' (Nat.le_of_not_lt hfirst)
      have hrest : j < n * sizeof_response := by
        rw [Nat.succ_mul] at hi
        exact Nat.lt_of_add_lt_add_right hi
      rw [if_neg hfirst, Nat.add_sub_cancel, ih (m + 1) j hrest, Nat.add_div_right j hsize, Nat.add_mod_right,
        Nat.add_assoc, Nat.add_comm 1]

/-- A response begins where the responses before it end. -/
theorem position_of_first_byte {n k : Nat} {before after : List ResponseByte}
    (h : before ++ ⟨k, 0⟩ :: after = (List.range n).flatMap response_bytes) :
    before.length = k * sizeof_response := by
  have hlength := congrArg List.length h
  have hbyte := congrArg (fun l => l[before.length]?) h
  rw [List.range_eq_range'] at hlength hbyte
  rw [List.length_append, List.length_cons, flatMap_response_bytes_length] at hlength
  simp only [List.getElem?_append_right (Nat.le_refl _), Nat.sub_self, List.getElem?_cons_zero] at hbyte
  rw [flatMap_response_bytes_getElem? 0 n before.length (by omega), Option.some.injEq, ResponseByte.mk.injEq,
    Nat.zero_add] at hbyte
  rw [hbyte.1, Nat.div_mul_cancel (Nat.dvd_of_mod_eq_zero hbyte.2.symm)]

end Bytes

section Turns

variable {bound : Nat} {s s' s₁ : Stream} {more more' : List (List RequestByte)}

theorem Turned.refl (s : Stream) : Turned s [] s :=
  ⟨by simp, by simp, by simp, by simp, ⟨[], by simp, rfl⟩, rfl, rfl⟩

theorem Turned.trans (h : Turned s more s₁) (h' : Turned s₁ more' s') : Turned s (more ++ more') s' where
  records := by rw [h'.records, h.records, List.append_assoc]
  whole bytes hbytes := (List.mem_append.mp hbytes).elim (h.whole bytes) (h'.whole bytes)
  taken := by
    obtain ⟨rest, hrest⟩ := h'.taken
    refine List.IsPrefix.trans ?_ h.taken
    rw [List.flatten_append, List.append_assoc]
    exact (List.prefix_append_right_inj _).mpr h'.taken
  answered := by
    rw [h'.answered, h.answered, h.records, List.length_append, List.length_append, List.append_assoc,
      ← List.flatMap_append, List.range'_append_1]
  answers := by
    obtain ⟨resps, hresps, hlength⟩ := h.answers
    obtain ⟨resps', hresps', hlength'⟩ := h'.answers
    exact ⟨resps ++ resps', by rw [hresps', hresps, List.append_assoc], by simp [hlength, hlength']⟩
  received := h'.received.trans h.received
  returned := h'.returned.trans h.returned

theorem daemon_turn_turned (s : Stream) (resp : Response) : ∃ more, Turned s more (s.daemon_turn resp) := by
  unfold Stream.daemon_turn
  split
  · exact ⟨[], .refl s⟩
  · split
    · exact ⟨[], by simp, by simp, by simp, by simp, ⟨[], by simp, rfl⟩, rfl, rfl⟩
    · next hwhole =>
      refine ⟨[s.to_daemon.take sizeof_request], rfl, ?_, ?_, ?_, ⟨_, rfl, rfl⟩, rfl, rfl⟩
      · simp only [List.mem_singleton, forall_eq, List.length_take]
        omega
      · simp
      · simp

theorem daemon_turns_turned (turns : List Response) (s : Stream) : ∃ more, Turned s more (s.daemon_turns turns) := by
  induction turns generalizing s with
  | nil => exact ⟨[], .refl s⟩
  | cons resp rest ih =>
    obtain ⟨more, hturn⟩ := daemon_turn_turned s resp
    obtain ⟨more', hrest⟩ := ih (s.daemon_turn resp)
    exact ⟨more ++ more', hturn.trans hrest⟩

/-- What turns of the daemon answer follows what has not been read yet. -/
theorem Turned.unread (h : Turned s more s') {read : List ResponseByte}
    (hread : read ++ s.from_daemon = (List.range s.records.length).flatMap response_bytes) :
    read ++ s'.from_daemon = (List.range s'.records.length).flatMap response_bytes := by
  rw [h.answered, ← List.append_assoc, hread, h.records, List.length_append, ← List.flatMap_append,
    List.range_eq_range', List.range_eq_range', ← List.range'_append_1, Nat.zero_add]

/-- Turns of the daemon keep the invariant. -/
theorem Turned.invariant (h : Turned s more s') (hinv : StreamInvariant bound s) : StreamInvariant bound s' where
  answers := by
    obtain ⟨resps, hresps, hlength⟩ := h.answers
    rw [hresps, h.records, List.length_append, List.length_append, hlength, hinv.answers]
  unread := by
    obtain ⟨read, hread⟩ := hinv.unread
    exact ⟨read, h.unread hread⟩
  earlier_records bytes hbytes b hb := by
    rw [h.records] at hbytes
    obtain hold | hnew := List.mem_append.mp hbytes
    · exact hinv.earlier_records bytes hold b hb
    · refine hinv.earlier_bytes b (h.taken.subset (List.mem_append_left _ ?_))
      exact List.mem_flatten.mpr ⟨bytes, hnew, hb⟩
  earlier_bytes b hb := hinv.earlier_bytes b (h.taken.subset (List.mem_append_right _ hb))

end Turns

section Exchange

variable {s s₂ : Stream} {req : Request} {more : List (List RequestByte)}

/-- The stream with the whole request of the current call written to it. -/
def Stream.put (s : Stream) (req : Request) : Stream :=
  { s with to_daemon := s.to_daemon ++ request_bytes s.call req }

/-- The stream after a whole response has been read from it. -/
def Stream.receive (s : Stream) : Stream :=
  { s with
    from_daemon := s.from_daemon.drop sizeof_response
    received := s.received ++ [⟨s.call, s.from_daemon.take sizeof_response⟩] }

/-- With nothing else under way, the next response answers the request just written. -/
theorem Turned.answers_request (h : Turned (s.put req) more s₂) (hstep : InStep s)
    (hread : sizeof_response ≤ s₂.from_daemon.length) :
    more = [request_bytes s.call req] ∧ s₂.from_daemon = response_bytes s.records.length := by
  obtain ⟨hto, hfrom⟩ := hstep
  have htaken := h.taken
  have hanswered := h.answered
  simp only [Stream.put, hto, hfrom, List.nil_append] at htaken hanswered
  have hsize : sizeof_request = 4128 := rfl
  match more, h.whole, htaken with
  | [], _, _ => simp [hanswered] at hread
  | [bytes], hwhole, htaken =>
    have hprefix : bytes <+: request_bytes s.call req := by
      rw [List.flatten_singleton] at htaken
      exact (List.prefix_append _ _).trans htaken
    have heq := hprefix.eq_of_length (by rw [hwhole bytes (by simp), request_bytes_length])
    exact ⟨by rw [heq], by simpa using hanswered⟩
  | bytes :: bytes' :: rest, hwhole, htaken =>
    have hlength := htaken.length_le
    have hfirst := hwhole bytes (by simp)
    have hsecond := hwhole bytes' (by simp)
    simp only [List.flatten_cons, List.length_append, request_bytes_length] at hlength
    omega

/-- When the next response answers the request just written, nothing else was under way. -/
theorem Turned.in_step (h : Turned (s.put req) more s₂) (hinv : StreamInvariant s.call s) {k : Nat} {req' : Request}
    (hbuffer : s₂.from_daemon.take sizeof_response = response_bytes k)
    (hrecord : s₂.records[k]? = some (request_bytes s.call req')) : InStep s := by
  obtain ⟨read, hread⟩ := hinv.unread
  obtain ⟨first, hfirst⟩ := request_bytes_eq_cons s.call req'
  -- the record holds bytes of this call, so it is not one of those read before
  have hnew : s.records.length ≤ k := by
    by_contra hlt
    rw [h.records] at hrecord
    have hlt' : k < (s.put req).records.length := Nat.lt_of_not_le hlt
    rw [List.getElem?_append_left hlt'] at hrecord
    have hbyte := hinv.earlier_records _ (List.mem_of_getElem? hrecord) ⟨s.call, req', 0⟩ (by simp [hfirst])
    exact Nat.lt_irrefl _ hbyte
  -- the response begins where the unread responses begin
  have hposition : read.length = k * sizeof_response := by
    obtain ⟨rest, hrest⟩ := response_bytes_eq_cons k
    have hall := h.unread hread
    rw [← List.take_append_drop sizeof_response s₂.from_daemon, hbuffer, hrest, List.cons_append] at hall
    exact position_of_first_byte hall
  have hlength := congrArg List.length hread
  rw [List.length_append, List.range_eq_range', flatMap_response_bytes_length, hposition] at hlength
  have hold : k ≤ s.records.length :=
    Nat.le_of_mul_le_mul_right (Nat.le_of_add_right_le (Nat.le_of_eq hlength)) (show 0 < sizeof_response by decide)
  obtain rfl : k = s.records.length := Nat.le_antisymm hold hnew
  refine ⟨?_, List.length_eq_zero_iff.mp (by omega)⟩
  -- the record is the first that the daemon has read since, and nothing comes before it
  have hhead : more[0]? = some (request_bytes s.call req') := by
    rw [h.records] at hrecord
    simpa [Stream.put, List.getElem?_append_right] using hrecord
  obtain ⟨more', rfl⟩ : ∃ more', more = request_bytes s.call req' :: more' := by
    cases more with
    | nil => simp at hhead
    | cons bytes more' => exact ⟨more', by simpa using hhead⟩
  cases hto : s.to_daemon with
  | nil => rfl
  | cons b rest =>
    have htaken := h.taken
    simp only [Stream.put, hto, hfirst, List.flatten_cons, List.cons_append, List.cons_prefix_cons] at htaken
    have hbyte := hinv.earlier_bytes b (by simp [hto])
    rw [← htaken.1] at hbyte
    exact absurd hbyte (Nat.lt_irrefl _)

/-- What was read, answered and returned stays where it was. -/
structure Extends (s s' : Stream) : Prop where
  records : s.records <+: s'.records
  answers : s.answers <+: s'.answers
  returned : s.returned <+: s'.returned

theorem Turned.extends {s' : Stream} (h : Turned s more s') : Extends s s' where
  records := by
    rw [h.records]
    exact List.prefix_append _ _
  answers := by
    obtain ⟨resps, hresps, _⟩ := h.answers
    rw [hresps]
    exact List.prefix_append _ _
  returned := h.returned ▸ List.prefix_refl _

theorem StreamInvariant.mono {bound bound' : Nat} (hinv : StreamInvariant bound s) (hle : bound ≤ bound') :
    StreamInvariant bound' s where
  answers := hinv.answers
  unread := hinv.unread
  earlier_records bytes hbytes b hb := Nat.lt_of_lt_of_le (hinv.earlier_records bytes hbytes b hb) hle
  earlier_bytes b hb := Nat.lt_of_lt_of_le (hinv.earlier_bytes b hb) hle

theorem StreamInvariant.write (hinv : StreamInvariant s.call s) (req : Request) (n : Nat) :
    StreamInvariant (s.call + 1) { s with to_daemon := s.to_daemon ++ (request_bytes s.call req).take n } where
  answers := hinv.answers
  unread := hinv.unread
  earlier_records bytes hbytes b hb := Nat.lt_succ_of_lt (hinv.earlier_records bytes hbytes b hb)
  earlier_bytes b hb := by
    obtain hold | hnew := List.mem_append.mp hb
    · exact Nat.lt_succ_of_lt (hinv.earlier_bytes b hold)
    · rw [mem_request_bytes (List.mem_of_mem_take hnew)]
      exact Nat.lt_succ_self _

theorem StreamInvariant.write_whole (hinv : StreamInvariant s.call s) (req : Request) :
    StreamInvariant (s.call + 1) (s.put req) := by
  have hwritten := hinv.write req sizeof_request
  rwa [List.take_of_length_le (by simp)] at hwritten

/-- Reading takes bytes from the front of what has not been read. -/
theorem StreamInvariant.read {bound : Nat} (hinv : StreamInvariant bound s) (n : Nat) (received : List Received) :
    StreamInvariant bound { s with from_daemon := s.from_daemon.drop n, received } where
  answers := hinv.answers
  unread := by
    obtain ⟨read, hread⟩ := hinv.unread
    exact ⟨read ++ s.from_daemon.take n, by rw [List.append_assoc, List.take_append_drop, hread]⟩
  earlier_records := hinv.earlier_records
  earlier_bytes := hinv.earlier_bytes

/-- A request that is not written whole, or whose response is not read whole,
receives nothing; the others receive what is at the front of the stream. -/
inductive ReqStep (mixed : List ResponseByte → Response) (req : Request) (s : Stream) : Int → Stream → Prop where
  | quiet (status : Int) (s' : Stream)
      (hquiet : ¬ (s.events.write = some sizeof_request ∧ s.events.read = some sizeof_response))
      (hinv : StreamInvariant (s.call + 1) s') (hextends : Extends s s') (hreceived : s'.received = s.received)
      (hreturned : s'.returned = s.returned) : ReqStep mixed req s status s'
  | whole (more : List (List RequestByte)) (s₂ : Stream) (hwrite : s.events.write = some sizeof_request)
      (hread : s.events.read = some sizeof_response) (hturned : Turned (s.put req) more s₂)
      (hbytes : sizeof_response ≤ s₂.from_daemon.length) :
      ReqStep mixed req s (s₂.decode mixed (s₂.from_daemon.take sizeof_response)).retval s₂.receive

theorem ipc_socket_req_stream {mixed : List ResponseByte → Response} {ipc ipc' : Ipc Stream} {fd status : Int}
    (hfd : ipc.plugin_data = some fd) (hinv : StreamInvariant ipc.os.call ipc.os)
    (havailable : ∀ n ∈ ipc.os.events.read,
      n ≤ ((ipc.os.write req).2.daemon_turns ipc.os.events.turns).from_daemon.length)
    (h : ipc_socket_req (stream mixed) req ipc = some (status, ipc')) :
    ipc'.plugin_data = some fd ∧ ReqStep mixed req ipc.os status ipc'.os := by
  simp only [ipc_socket_req, hfd, Option.bind_eq_bind, Option.bind_some, stream] at h
  cases hwrite : ipc.os.events.write with
  | none =>
    have hsame : ipc.os.write req = (-1, ipc.os) := by rw [Stream.write, hwrite]
    rw [hsame] at h
    cases h
    exact ⟨rfl, .quiet _ _ (by simp [hwrite]) (hinv.mono (Nat.le_succ _))
      ⟨List.prefix_refl _, List.prefix_refl _, List.prefix_refl _⟩ rfl rfl⟩
  | some n =>
    have hput : ipc.os.write req =
        ((n : Int), { ipc.os with to_daemon := ipc.os.to_daemon ++ (request_bytes ipc.os.call req).take n }) := by
      simp only [Stream.write, hwrite]
    rw [hput] at h havailable
    by_cases hwhole : n = sizeof_request
    · have htake : (request_bytes ipc.os.call req).take n = request_bytes ipc.os.call req :=
        List.take_of_length_le (by simp [hwhole])
      have hinv₁ := hinv.write_whole req
      rw [htake] at h havailable
      change ∀ n ∈ ipc.os.events.read, n ≤ ((ipc.os.put req).daemon_turns ipc.os.events.turns).from_daemon.length
        at havailable
      obtain ⟨more, hturned⟩ := daemon_turns_turned ipc.os.events.turns (ipc.os.put req)
      rw [if_neg (by simp [hwhole]), show (Stream.mk _ _ _ _ _ _ _ _) = ipc.os.put req from rfl] at h
      have hevents : (ipc.os.put req).events = ipc.os.events := rfl
      generalize hs₂ : (ipc.os.put req).daemon_turns ipc.os.events.turns = s₂ at *
      have hextends : Extends ipc.os s₂ := ⟨hturned.extends.records, hturned.extends.answers,
        hturned.extends.returned⟩
      simp only [Stream.read, hevents, hs₂] at h
      cases hread : ipc.os.events.read with
      | none =>
        simp only [hread] at h
        cases h
        exact ⟨rfl, .quiet _ _ (by simp [hread]) (hturned.invariant hinv₁) hextends hturned.received hturned.returned⟩
      | some m =>
        simp only [hread] at h
        by_cases hresponse : m = sizeof_response
        · subst hresponse
          cases h
          exact ⟨rfl, .whole more s₂ (by simp [hwrite, hwhole]) hread hturned (havailable _ hread)⟩
        · have hshort : (m : Int) ≠ sizeof_response := fun heq => hresponse (Int.ofNat.inj heq)
          rw [if_pos hshort] at h
          cases h
          refine ⟨rfl, .quiet _ _ (by simp [hread, hresponse]) ((hturned.invariant hinv₁).read m _)
            ⟨hextends.records, hextends.answers, hextends.returned⟩ ?_ hturned.returned⟩
          exact (if_neg hresponse).trans hturned.received
    · have hshort : (n : Int) ≠ sizeof_request := fun heq => hwhole (Int.ofNat.inj heq)
      rw [if_pos hshort] at h
      cases h
      refine ⟨rfl, .quiet _ _ (by simp [hwrite, hwhole]) (hinv.write req n)
        ⟨List.prefix_refl _, List.prefix_refl _, List.prefix_refl _⟩ rfl rfl⟩

/-- The call returns, and the next one has the next number. -/
theorem StreamInvariant.return_status (hinv : StreamInvariant (s.call + 1) s) (status : Int) :
    StreamInvariant (s.return_status status).call (s.return_status status) := by
  have hcall : (s.return_status status).call = s.call + 1 := by
    rw [Stream.call, Stream.return_status, List.length_append]
    rfl
  rw [hcall]
  exact ⟨hinv.answers, hinv.unread, hinv.earlier_records, hinv.earlier_bytes⟩

end Exchange

section Pairing

variable {mixed : List ResponseByte → Response} {s s' s₂ : Stream} {req : Request} {more : List (List RequestByte)}

theorem getElem?_of_prefix {α : Type} {l l' : List α} {i : Nat} {a : α} (h : l <+: l') (hi : l[i]? = some a) :
    l'[i]? = some a := by
  obtain ⟨hlt, rfl⟩ := List.getElem?_eq_some_iff.mp hi
  exact List.prefix_iff_getElem?.mp h i hlt

theorem Extends.return_status (h : Extends s s') (status : Int) : Extends s (s'.return_status status) :=
  ⟨h.records, h.answers, h.returned.trans (List.prefix_append _ _)⟩

/-- What was paired stays paired. -/
theorem Extends.paired (h : Extends s s') {x : Received}
    (hx : ∃ k req resp, x.buffer = response_bytes k ∧ s.records[k]? = some (request_bytes x.call req) ∧
      s.answers[k]? = some resp ∧ s.returned[x.call]? = some resp.retval) :
    ∃ k req resp, x.buffer = response_bytes k ∧ s'.records[k]? = some (request_bytes x.call req) ∧
      s'.answers[k]? = some resp ∧ s'.returned[x.call]? = some resp.retval := by
  obtain ⟨k, req, resp, hbuffer, hrecord, hanswer, hreturned⟩ := hx
  exact ⟨k, req, resp, hbuffer, getElem?_of_prefix h.records hrecord, getElem?_of_prefix h.answers hanswer,
    getElem?_of_prefix h.returned hreturned⟩

theorem decode_response_bytes (mixed : List ResponseByte → Response) {k : Nat} {resp : Response}
    (h : s.answers[k]? = some resp) : s.decode mixed (response_bytes k) = resp := by
  obtain ⟨rest, hrest⟩ := response_bytes_eq_cons k
  have hdecode : s.decode mixed (⟨k, 0⟩ :: rest) = resp := by
    rw [Stream.decode, if_pos hrest.symm, List.getD_eq_getElem?_getD, h, Option.getD_some]
  rw [hrest, hdecode]

/-- A call that reads a whole response has read its own exactly when nothing else was under way. -/
theorem Turned.paired_iff (mixed : List ResponseByte → Response) (h : Turned (s.put req) more s₂)
    (hinv : StreamInvariant s.call s) (hpaired : Paired s)
    (hbytes : sizeof_response ≤ s₂.from_daemon.length) :
    Paired (s₂.receive.return_status (s₂.decode mixed (s₂.from_daemon.take sizeof_response)).retval) ↔ InStep s := by
  have hcall : s₂.call = s.call := by rw [Stream.call, h.returned]; rfl
  constructor
  · intro hpaired'
    have hlast : (⟨s₂.call, s₂.from_daemon.take sizeof_response⟩ : Received) ∈
        s₂.received ++ [⟨s₂.call, s₂.from_daemon.take sizeof_response⟩] := by simp
    obtain ⟨k, req', resp, hbuffer, hrecord, _⟩ := hpaired' _ hlast
    exact h.in_step hinv hbuffer (hcall ▸ hrecord)
  · intro hstep x hx
    obtain ⟨hmore, hfrom⟩ := h.answers_request hstep hbytes
    obtain hold | hnew := List.mem_append.mp hx
    · have hextends := h.extends
      rw [h.received] at hold
      have hextends' : Extends s s₂.receive := ⟨hextends.records, hextends.answers, hextends.returned⟩
      exact (hextends'.return_status _).paired (hpaired x hold)
    · obtain rfl := List.mem_singleton.mp hnew
      obtain ⟨resps, hresps, hlength⟩ := h.answers
      obtain ⟨resp, rfl⟩ : ∃ resp, resps = [resp] := List.length_eq_one_iff.mp (by rw [hlength, hmore]; rfl)
      have hanswer : s₂.answers[s.records.length]? = some resp := by
        rw [hresps, ← hinv.answers]
        exact List.getElem?_concat_length
      have htake : s₂.from_daemon.take sizeof_response = response_bytes s.records.length := by
        rw [hfrom]
        exact List.take_of_length_le (Nat.le_of_eq (response_bytes_length _))
      have hrecord : s₂.records[s.records.length]? = some (request_bytes s₂.call req) := by
        rw [h.records, hmore, hcall]
        generalize request_bytes s.call req = bytes
        exact List.getElem?_concat_length
      rw [htake, decode_response_bytes mixed hanswer]
      refine ⟨s.records.length, req, resp, rfl, hrecord, hanswer, ?_⟩
      exact List.getElem?_concat_length

/-- The invariant of the plugin and its connection between calls. -/
structure ExchangeInvariant (ipc : Ipc Stream) : Prop where
  connected : ∃ fd, ipc.plugin_data = some fd ∧ 0 ≤ fd
  stream : StreamInvariant ipc.os.call ipc.os

theorem daemon_turn_step {ipc : Ipc Stream} (hinv : ExchangeInvariant ipc) (resp : Response) :
    ExchangeInvariant { ipc with os := ipc.os.daemon_turn resp } ∧
      (Paired ipc.os → Paired (ipc.os.daemon_turn resp)) := by
  obtain ⟨more, hturned⟩ := daemon_turn_turned ipc.os resp
  refine ⟨⟨hinv.connected, ?_⟩, fun hpaired x hx => ?_⟩
  · have hcall : (ipc.os.daemon_turn resp).call = ipc.os.call := by rw [Stream.call, hturned.returned]; rfl
    simp only [hcall]
    exact hturned.invariant hinv.stream
  · exact hturned.extends.paired (hpaired x (hturned.received ▸ hx))

theorem exchange_set_step {ipc ipc' : Ipc Stream} {call : Call} {events : Events} (hinv : ExchangeInvariant ipc)
    (hpermitted : StreamPermitted ipc (.set call events)) (h : exchange mixed (.set call events) ipc = some ipc') :
    ExchangeInvariant ipc' ∧ (Paired ipc.os → (Paired ipc'.os ↔ StaysInStep ipc (.set call events))) := by
  obtain ⟨fd, hfd, hopen⟩ := hinv.connected
  obtain ⟨hset, hevents⟩ := hpermitted
  obtain ⟨⟨status, ipc₁⟩, hperform, h⟩ := Option.bind_eq_some_iff.mp h
  cases h
  rw [perform_connected (stream mixed) (by exact hfd) hopen hset] at hperform
  have hinv₀ : StreamInvariant ipc.os.call (ipc.os.with_events events) :=
    ⟨hinv.stream.answers, hinv.stream.unread, hinv.stream.earlier_records, hinv.stream.earlier_bytes⟩
  cases hsent : sent_request call with
  | none =>
    simp only [hsent, Option.some.injEq, Prod.mk.injEq] at hperform
    obtain ⟨_, rfl⟩ := hperform
    refine ⟨⟨⟨fd, hfd, hopen⟩, (hinv₀.mono (Nat.le_succ _)).return_status _⟩, fun hpaired => iff_of_true ?_ ?_⟩
    · have hextends : Extends ipc.os (ipc.os.with_events events) :=
        ⟨List.prefix_refl _, List.prefix_refl _, List.prefix_refl _⟩
      exact fun x hx => (hextends.return_status _).paired (hpaired x hx)
    · simp [StaysInStep, hsent]
  | some req =>
    simp only [hsent] at hperform
    obtain ⟨context_name, context_role, plugin_data, os⟩ := ipc₁
    have hconnected : ({ ipc with os := ipc.os.with_events events } : Ipc Stream).plugin_data = some fd := hfd
    obtain ⟨hplugin, hreq⟩ := ipc_socket_req_stream hconnected hinv₀
      (fun n hn => ((hevents req (by simp [hsent])).2 n hn).2) hperform
    cases hreq with
    | quiet _ _ hquiet hinv' hextends hreceived hreturned =>
      have hcall : os.call = (ipc.os.with_events events).call := by rw [Stream.call, hreturned]; rfl
      refine ⟨⟨⟨fd, hplugin, hopen⟩, StreamInvariant.return_status (hcall ▸ hinv') _⟩,
        fun hpaired => iff_of_true ?_ ?_⟩
      · have hextends' : Extends ipc.os os := ⟨hextends.records, hextends.answers, hextends.returned⟩
        exact fun x hx => (hextends'.return_status _).paired (hpaired x (hreceived ▸ hx))
      · exact fun _ hwrite hread => absurd ⟨hwrite, hread⟩ hquiet
    | whole more s₂ hwrite hread hturned hbytes =>
      have hcall : s₂.receive.call = ipc.os.call := by
        rw [Stream.call, Stream.receive, hturned.returned]
        rfl
      have hinv₁ : StreamInvariant (s₂.receive.call + 1) s₂.receive := by
        rw [hcall]
        exact (hturned.invariant (hinv₀.write_whole req)).read _ _
      refine ⟨⟨⟨fd, hplugin, hopen⟩, hinv₁.return_status _⟩, fun hpaired => ?_⟩
      have hiff := hturned.paired_iff mixed hinv₀ hpaired hbytes
      exact hiff.trans ⟨fun hstep _ _ _ => hstep, fun hstep => hstep (by simp [hsent]) hwrite hread⟩

end Pairing

section Runs

variable {mixed : List ResponseByte → Response}

/-- The plugin when it has just been authenticated on a descriptor. -/
def authenticated (context_name : String) (context_role : PwrRole) (fd : Int) : Ipc Stream :=
  { context_name, context_role, plugin_data := some fd, os := {} }

theorem authenticated_invariant (context_name : String) (context_role : PwrRole) {fd : Int} (hopen : 0 ≤ fd) :
    ExchangeInvariant (authenticated context_name context_role fd) where
  connected := ⟨fd, rfl, hopen⟩
  stream := by
    refine ⟨rfl, ⟨[], rfl⟩, ?_, ?_⟩
    · simp [authenticated]
    · simp [authenticated]

/-- Every whole response that a set call receives is the daemon's answer to its own
request, in every run of set calls on one connection, if and only if no call writes
its request whole and reads a whole response while a request or a response of an
earlier call is under way. -/
theorem responses_paired_iff (mixed : List ResponseByte → Response) (context_name : String) (context_role : PwrRole)
    (fd : Int) (hopen : 0 ≤ fd) (run : List (StreamStep × Ipc Stream))
    (hrun : EachStep (ExchangeStep mixed) (authenticated context_name context_role fd) run) :
    (∀ x ∈ run, Paired x.2.os) ↔
      EachStep (fun ipc step _ => StaysInStep ipc step) (authenticated context_name context_role fd) run := by
  refine hrun.forall_iff (I := ExchangeInvariant) (P := fun ipc => Paired ipc.os)
    (authenticated_invariant context_name context_role hopen) (by simp [Paired, authenticated]) ?_ ?_
  · rintro ipc step ipc' ⟨hpermitted, hstep⟩ hinv
    cases step with
    | set call events => exact (exchange_set_step hinv hpermitted hstep).1
    | daemon resp =>
      cases hstep
      exact (daemon_turn_step hinv resp).1
  · rintro ipc step ipc' ⟨hpermitted, hstep⟩ hinv hpaired
    cases step with
    | set call events => exact (exchange_set_step hinv hpermitted hstep).2 hpaired
    | daemon resp =>
      cases hstep
      exact iff_of_true ((daemon_turn_step hinv resp).2 hpaired) trivial

/-- The run that takes the given steps. -/
def exchange_run (steps : List StreamStep) : List (StreamStep × Ipc Stream) :=
  run_of (exchange fun _ => { retval := 0 }) steps (authenticated "app" .APP 3)

theorem exchange_run_steps {steps : List StreamStep}
    (h : EachStep (fun ipc step _ => StreamPermitted ipc step) (authenticated "app" .APP 3) (exchange_run steps)) :
    EachStep (ExchangeStep fun _ => { retval := 0 }) (authenticated "app" .APP 3) (exchange_run steps) :=
  ((eachStep_run_of _ _ _).and h).imp fun _ _ _ h => ⟨h.2, h.1⟩

/-- Two set calls. The read of the first is interrupted, or it gets its answer. -/
def interrupted_call (interrupted : Bool) : List StreamStep :=
  let set (value : UInt64) : Call := .set_uint64 0 .FREQ_REQ 0 value "scaling_setspeed"
  [.set (set 5) (if interrupted then ⟨some sizeof_request, [], none⟩
      else ⟨some sizeof_request, [⟨0, 0, ⟨0, 0⟩⟩], some sizeof_response⟩),
    .set (set 6) ⟨some sizeof_request, [⟨-1, 0, ⟨0, 0⟩⟩, ⟨0, 0, ⟨0, 0⟩⟩], some sizeof_response⟩]

theorem responses_paired_iff_answered_call :
    (exchange_run (interrupted_call false)).length = (interrupted_call false).length ∧
    ∀ x ∈ exchange_run (interrupted_call false), Paired x.2.os :=
  ⟨by decide +kernel, (responses_paired_iff _ "app" .APP 3 (by decide) _
    (exchange_run_steps (by decide +kernel))).mpr (by decide +kernel)⟩

/-- After an interrupted read the next call takes the answer to the request before its own. -/
theorem responses_not_paired :
    ¬ ∀ mixed context_name context_role fd run, 0 ≤ fd →
      EachStep (ExchangeStep mixed) (authenticated context_name context_role fd) run → ∀ x ∈ run, Paired x.2.os := by
  intro hclaim
  have hpaired := hclaim _ _ _ _ (exchange_run (interrupted_call true)) (by decide)
    (exchange_run_steps (by decide +kernel))
  have hwrong : ∃ x ∈ exchange_run (interrupted_call true), ∃ y ∈ x.2.os.received, y.call = 1 ∧
      y.buffer.head? = some ⟨0, 0⟩ ∧ ∃ bytes ∈ x.2.os.records[0]?, bytes.head?.map RequestByte.call = some 0 := by
    decide +kernel
  obtain ⟨x, hx, y, hy, hcall, hfirst, bytes, hbytes, hother⟩ := hwrong
  obtain ⟨k, req, resp, hbuffer, hrecord, _⟩ := hpaired x hx y hy
  obtain ⟨rest, hrest⟩ := response_bytes_eq_cons k
  rw [hbuffer, hrest, List.head?_cons, Option.some.injEq, ResponseByte.mk.injEq] at hfirst
  obtain rfl := hfirst.1
  obtain ⟨first, hrequest⟩ := request_bytes_eq_cons y.call req
  rw [hrecord, hrequest] at hbytes
  cases hbytes
  simp [hcall] at hother

end Runs

end pwrapi.ipc
