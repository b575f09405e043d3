import PowerApi.Lib.Execution
import PowerApi.Lib.HashTable
import PowerApi.Ipc.Socket

open Execution

namespace pwrapi.ipc

/-- A descriptor that the plugin opened: whether it has been connected, whether the
daemon has answered PwrAUTH with success on it, and the last request written whole. -/
structure Connection where
  connected : Bool := false
  authenticated : Bool := false
  asked : Option Request := none
  deriving DecidableEq, Repr

/-- The results that the system calls of one call of the plugin have: any
success, error or short count, and any answer of the daemon. -/
structure Results where
  socket : Int := -1
  connect : Int := -1
  writes : List Int := []
  reads : List (Int × Response) := []

/-- The next number of bytes written. Calls beyond those foreseen fail. -/
def Results.next_write (r : Results) : Int := r.writes.headD (-1)

def Results.next_read (r : Results) : Int × Response := r.reads.headD (-1, { retval := 0 })

/-- A PwrAUTH with a context name that fits is written whole and gets a whole answer, with success. -/
def Results.Answer (r : Results) (context_name : String) : Prop :=
  context_name.utf8ByteSize ≤ PWR_MAX_STRING_LEN ∧ r.next_write = sizeof_request ∧
    r.next_read.1 = sizeof_response ∧ r.next_read.2.retval = PWR_RET_SUCCESS

instance (r : Results) (context_name : String) : Decidable (r.Answer context_name) :=
  inferInstanceAs (Decidable (_ ∧ _ ∧ _ ∧ _))

/-- The descriptors that the plugin has opened and not closed, the requests it
has written, each with what its descriptor was then, and the results to come. -/
structure Kernel where
  descriptors : HashTable Int Connection := ∅
  sent : List (Option Connection × Request) := []
  results : Results := {}

namespace Kernel

/-- Change what is known of a descriptor, if the plugin has it open. -/
def update (fd : Int) (f : Connection → Connection) (k : Kernel) : Kernel :=
  match k.descriptors.lookup fd with
  | none => k
  | some c => { k with descriptors := k.descriptors.insert fd (f c) }

def write (fd : Int) (req : Request) (k : Kernel) : Int × Kernel :=
  let bytes := k.results.next_write
  let k := { k with
    sent := k.sent ++ [(k.descriptors.lookup fd, req)]
    results := { k.results with writes := k.results.writes.tail } }
  (bytes, if bytes = sizeof_request then k.update fd fun c => { c with asked := some req } else k)

def read (fd : Int) (k : Kernel) : (Int × Response) × Kernel :=
  let (bytes, resp) := k.results.next_read
  let k := { k with results := { k.results with reads := k.results.reads.tail } }
  let answer (c : Connection) : Connection :=
    match c.asked with
    | some (.PwrAUTH _ _) =>
      { c with asked := none, authenticated := c.authenticated || decide (resp.retval = PWR_RET_SUCCESS) }
    | _ => { c with asked := none }
  ((bytes, resp), if bytes = sizeof_response then k.update fd answer else k)

end Kernel

def kernel : System Kernel where
  socket k :=
    (k.results.socket,
      if k.results.socket ≥ 0 then { k with descriptors := k.descriptors.insert k.results.socket {} } else k)
  connect fd _ k :=
    (k.results.connect, if k.results.connect ≥ 0 then k.update fd fun c => { c with connected := true } else k)
  write fd req k := k.write fd req
  read fd k := k.read fd
  close fd k := { k with descriptors := k.descriptors.erase fd }

/-- A connection that the plugin opened and connected, and on which PwrAUTH was answered with success. -/
def Kernel.Authenticated (k : Kernel) (fd : Int) : Prop :=
  ∃ c, k.descriptors.lookup fd = some c ∧ c.connected = true ∧ c.authenticated = true

/-- What the plugin relies on between calls: a descriptor that it keeps is an
authenticated connection, and set requests are only written to such connections. -/
structure Sound (ipc : Ipc Kernel) : Prop where
  kept : ∀ fd, ipc.plugin_data = some fd → 0 ≤ fd → ipc.os.Authenticated fd
  sent : ∀ x ∈ ipc.os.sent, ∀ set, x.2 = .PwrSET set →
    ∃ c, x.1 = some c ∧ c.connected = true ∧ c.authenticated = true

def with_results (ipc : Ipc Kernel) (results : Results) : Ipc Kernel :=
  { ipc with os := { ipc.os with results } }

/-- A call with the results of its system calls. -/
def CallStep (ipc : Ipc Kernel) (action : Call × Results) (ipc' : Ipc Kernel) : Prop :=
  ∃ status, perform kernel action.1 (with_results ipc action.2) = some (status, ipc')

/-- A call that finds no descriptor, opens a socket and connects it gets its PwrAUTH answered with success. -/
def Answered (ipc : Ipc Kernel) (action : Call × Results) : Prop :=
  action.1 ≠ .destruct → ipc.plugin_data.any (fun fd => decide (fd < 0)) = true →
    0 ≤ action.2.socket → 0 ≤ action.2.connect → action.2.Answer ipc.context_name

instance (ipc : Ipc Kernel) (action : Call × Results) : Decidable (Answered ipc action) :=
  inferInstanceAs (Decidable (_ → _ → _ → _ → _))

section Requests

variable {k : Kernel} {fd : Int} {req : Request}

theorem update_lookup (f : Connection → Connection) :
    (k.update fd f).descriptors.lookup fd = (k.descriptors.lookup fd).map f := by
  unfold Kernel.update
  split
  · next h => rw [h, Option.map_none]
  · next c h => rw [Finmap.lookup_insert, h, Option.map_some]

@[simp] theorem update_sent (f : Connection → Connection) : (k.update fd f).sent = k.sent := by
  unfold Kernel.update
  split <;> rfl

@[simp] theorem update_results (f : Connection → Connection) : (k.update fd f).results = k.results := by
  unfold Kernel.update
  split <;> rfl

theorem Kernel.Authenticated.update (h : k.Authenticated fd) {f : Connection → Connection}
    (hconnected : ∀ c, c.connected = true → (f c).connected = true)
    (hauthenticated : ∀ c, c.authenticated = true → (f c).authenticated = true) :
    (k.update fd f).Authenticated fd := by
  obtain ⟨c, hc, hcon, hauth⟩ := h
  exact ⟨f c, by rw [update_lookup, hc, Option.map_some], hconnected c hcon, hauthenticated c hauth⟩

/-- Writing a request records it with its connection. -/
theorem write_sent (k : Kernel) (fd : Int) (req : Request) :
    (k.write fd req).2.sent = k.sent ++ [(k.descriptors.lookup fd, req)] := by
  unfold Kernel.write
  dsimp only
  split
  · rw [update_sent]
  · rfl

theorem write_lookup (k : Kernel) (fd : Int) (req : Request) :
    (k.write fd req).2.descriptors.lookup fd = (k.descriptors.lookup fd).map fun c =>
      if (k.write fd req).1 = sizeof_request then { c with asked := some req } else c := by
  unfold Kernel.write
  dsimp only
  split
  · rw [update_lookup]
  · simp

theorem write_results (k : Kernel) (fd : Int) (req : Request) :
    (k.write fd req).2.results = { k.results with writes := k.results.writes.tail } := by
  unfold Kernel.write
  dsimp only
  split
  · rw [update_results]
  · rfl

@[simp] theorem read_sent (k : Kernel) (fd : Int) : (k.read fd).2.sent = k.sent := by
  unfold Kernel.read
  dsimp only
  split
  · rw [update_sent]
  · rfl

theorem Kernel.Authenticated.write (h : k.Authenticated fd) (req : Request) :
    (k.write fd req).2.Authenticated fd := by
  obtain ⟨c, hc, hcon, hauth⟩ := h
  refine ⟨_, by rw [write_lookup, hc, Option.map_some], ?_, ?_⟩
  · split <;> exact hcon
  · split <;> exact hauth

theorem Kernel.Authenticated.read (h : k.Authenticated fd) : (k.read fd).2.Authenticated fd := by
  unfold Kernel.read
  dsimp only
  split
  · have hk : ({ k with results := { k.results with reads := k.results.reads.tail } } : Kernel).Authenticated fd := h
    refine hk.update (fun c hcon => ?_) (fun c hauth => ?_)
    · split <;> exact hcon
    · split
      · simp [hauth]
      · exact hauth
  · exact h

theorem read_result (k : Kernel) (fd : Int) : (k.read fd).1 = k.results.next_read := rfl

/-- A whole answer with success to PwrAUTH authenticates the connection. -/
theorem read_authenticates {c : Connection} {role : PwrRole} {context_name : String}
    (hc : k.descriptors.lookup fd = some c) (hconnected : c.connected = true)
    (hasked : c.asked = some (.PwrAUTH role context_name))
    (hwhole : k.results.next_read.1 = sizeof_response) (hsuccess : k.results.next_read.2.retval = PWR_RET_SUCCESS) :
    (k.read fd).2.Authenticated fd := by
  unfold Kernel.read
  dsimp only
  rw [if_pos hwhole]
  refine ⟨_, by rw [update_lookup]; exact congrArg (Option.map _) hc, ?_, ?_⟩
  · simpa [hasked] using hconnected
  · simp [hasked, hsuccess]

end Requests

section Calls

variable {ipc ipc' : Ipc Kernel} {fd status : Int} {req : Request}

/-- A request on a kept descriptor is written once, and the descriptor stays what it is. -/
theorem ipc_socket_req_step (hfd : ipc.plugin_data = some fd)
    (h : ipc_socket_req kernel req ipc = some (status, ipc')) :
    ipc'.plugin_data = some fd ∧ ipc'.os.sent = ipc.os.sent ++ [(ipc.os.descriptors.lookup fd, req)] ∧
      (ipc.os.Authenticated fd → ipc'.os.Authenticated fd) := by
  simp only [ipc_socket_req, hfd, Option.bind_eq_bind, Option.bind_some, kernel] at h
  split at h
  · cases h
    exact ⟨rfl, write_sent _ _ _, fun hauth => hauth.write req⟩
  · split at h
    · cases h
      exact ⟨rfl, (read_sent _ _).trans (write_sent _ _ _), fun hauth => (hauth.write req).read⟩
    · cases h
      exact ⟨rfl, (read_sent _ _).trans (write_sent _ _ _), fun hauth => (hauth.write req).read⟩

/-- Authentication on a connection that was just opened. -/
theorem ipc_socket_auth_step (hfd : ipc.plugin_data = some fd)
    (hconnected : ipc.os.descriptors.lookup fd = some { connected := true })
    (h : ipc_socket_auth kernel ipc = some (status, ipc')) :
    ipc'.plugin_data = some fd ∧
      (∀ x ∈ ipc'.os.sent, ∀ set, x.2 = .PwrSET set → x ∈ ipc.os.sent) ∧
      (status = PWR_RET_SUCCESS ↔ ipc.os.results.Answer ipc.context_name) ∧
      (status = PWR_RET_SUCCESS → ipc'.os.Authenticated fd) := by
  unfold ipc_socket_auth at h
  split at h
  · next hlong =>
    cases h
    refine ⟨hfd, fun x hx _ _ => hx, ⟨nofun, fun hshort => absurd hshort.1 (by omega)⟩, nofun⟩
  · next hshort =>
    obtain ⟨hplugin, hsent, _⟩ := ipc_socket_req_step hfd h
    refine ⟨hplugin, ?_, ?_⟩
    · intro x hx set hset
      rw [hsent] at hx
      obtain hx | hx := List.mem_append.mp hx
      · exact hx
      · rw [List.mem_singleton.mp hx] at hset
        cases hset
    · have hread_next : (Kernel.write fd (.PwrAUTH ipc.context_role ipc.context_name) ipc.os).2.results.next_read =
          ipc.os.results.next_read := by rw [write_results]; rfl
      simp only [ipc_socket_req, hfd, Option.bind_eq_bind, Option.bind_some, kernel, read_result, hread_next] at h
      split at h
      · next hwrite =>
        cases h
        exact ⟨⟨nofun, fun hanswered => absurd hanswered.2.1 hwrite⟩, nofun⟩
      · next hwrite =>
        have hwrite' : ipc.os.results.next_write = sizeof_request := not_not.mp hwrite
        have hasked : (Kernel.write fd (.PwrAUTH ipc.context_role ipc.context_name) ipc.os).2.descriptors.lookup fd =
            some { connected := true, asked := some (.PwrAUTH ipc.context_role ipc.context_name) } := by
          rw [write_lookup, hconnected, Option.map_some]
          exact congrArg some (if_pos hwrite')
        split at h
        · next hread =>
          cases h
          exact ⟨⟨nofun, fun hanswered => absurd hanswered.2.2.1 hread⟩, nofun⟩
        · next hread =>
          cases h
          have hread' := not_not.mp hread
          refine ⟨⟨fun hstatus => ⟨by omega, hwrite', hread', hstatus⟩, fun hanswered => hanswered.2.2.2⟩,
            fun hstatus => ?_⟩
          refine read_authenticates hasked rfl rfl ?_ ?_
          · rw [hread_next]
            exact hread'
          · rw [hread_next]
            exact hstatus

/-- What connecting can do: keep the descriptor there is, fail before there is a new
one, authenticate on a new one, or fail to and close it without forgetting it. -/
inductive ConnectStep (ipc : Ipc Kernel) : Int → Ipc Kernel → Prop where
  | kept (fd : Int) (hfd : ipc.plugin_data = some fd) (hopen : 0 ≤ fd) : ConnectStep ipc PWR_RET_SUCCESS ipc
  | failed (fd : Int) (ipc' : Ipc Kernel) (hfd : ipc.plugin_data = some fd) (hnone : fd < 0)
      (hfails : ipc.os.results.socket < 0 ∨ ipc.os.results.connect < 0) (hplugin : ipc'.plugin_data = some fd)
      (hsent : ipc'.os.sent = ipc.os.sent) : ConnectStep ipc PWR_RET_FAILURE ipc'
  | authenticated (fd : Int) (ipc' : Ipc Kernel) (hfd : ipc.plugin_data = some fd) (hnone : fd < 0)
      (hanswer : ipc.os.results.Answer ipc.context_name) (hplugin : ipc'.plugin_data = some ipc.os.results.socket)
      (hauth : ipc'.os.Authenticated ipc.os.results.socket)
      (hsent : ∀ x ∈ ipc'.os.sent, ∀ set, x.2 = .PwrSET set → x ∈ ipc.os.sent) : ConnectStep ipc PWR_RET_SUCCESS ipc'
  | refused (fd status : Int) (ipc' : Ipc Kernel) (hfd : ipc.plugin_data = some fd) (hnone : fd < 0)
      (hsocket : 0 ≤ ipc.os.results.socket) (hconnect : 0 ≤ ipc.os.results.connect)
      (hanswer : ¬ ipc.os.results.Answer ipc.context_name) (hstatus : status ≠ PWR_RET_SUCCESS)
      (hplugin : ipc'.plugin_data = some ipc.os.results.socket)
      (hclosed : ipc'.os.descriptors.lookup ipc.os.results.socket = none) : ConnectStep ipc status ipc'

/-- A socket that was opened is closed again on a failure. -/
theorem connect_return_failure (ipc : Ipc Kernel) (hopen : 0 ≤ fd) (hstatus : status ≠ PWR_RET_SUCCESS) :
    connect_return kernel fd status ipc =
      (status, { ipc with os := { ipc.os with descriptors := ipc.os.descriptors.erase fd } }) := by
  rw [connect_return, if_pos hstatus, if_pos hopen]
  rfl

theorem ipc_socket_connect_step (h : ipc_socket_connect kernel ipc = some (status, ipc')) :
    ConnectStep ipc status ipc' := by
  obtain ⟨fd, hfd, h⟩ := Option.bind_eq_some_iff.mp h
  split at h
  · next hopen =>
    cases h
    exact .kept fd hfd hopen
  · next hnone =>
    have hnone' : fd < 0 := not_le.mp hnone
    have hpath : ¬ POWERAPID_SOCKET_PATH.utf8ByteSize ≥ 108 := by decide
    have hfailure : PWR_RET_FAILURE ≠ PWR_RET_SUCCESS := by decide
    by_cases hsocket : ipc.os.results.socket < 0
    · simp only [kernel, hsocket, if_true, connect_return, if_pos hfailure, ge_iff_le, not_le.mpr hsocket,
        if_false] at h
      cases h
      exact .failed fd _ hfd hnone' (Or.inl hsocket) hfd rfl
    · have hsocket' : 0 ≤ ipc.os.results.socket := not_lt.mp hsocket
      by_cases hconnect : ipc.os.results.connect < 0
      · simp only [kernel, hsocket, if_false, if_neg hpath, hconnect, if_true, connect_return, if_pos hfailure,
          ge_iff_le, hsocket', not_le.mpr hconnect] at h
        cases h
        exact .failed fd _ hfd hnone' (Or.inr hconnect) hfd rfl
      · have hconnect' : 0 ≤ ipc.os.results.connect := not_lt.mp hconnect
        have hsystem : kernel.socket ipc.os = (ipc.os.results.socket,
            { ipc.os with descriptors := ipc.os.descriptors.insert ipc.os.results.socket {} }) := by
          simp only [kernel, ge_iff_le, hsocket', if_true]
        have hconnected : ∀ k : Kernel, k.results = ipc.os.results →
            kernel.connect ipc.os.results.socket POWERAPID_SOCKET_PATH k = (ipc.os.results.connect,
              k.update ipc.os.results.socket fun c => { c with connected := true }) := by
          intro k hk
          simp only [kernel, hk, ge_iff_le, hconnect', if_true]
        rw [hsystem] at h
        simp -proj only [hconnected, hsocket, hconnect, if_false, if_neg hpath] at h
        obtain ⟨⟨status', ipc₁⟩, hauth, h⟩ := Option.bind_eq_some_iff.mp h
        obtain ⟨hplugin, hsent, hstatus, hsuccess⟩ := ipc_socket_auth_step rfl (by
          rw [update_lookup, Finmap.lookup_insert]
          rfl) hauth
        simp only [update_results, update_sent] at hsent hstatus
        by_cases hanswer : ipc.os.results.Answer ipc.context_name
        · obtain rfl : status' = PWR_RET_SUCCESS := hstatus.mpr hanswer
          cases h
          exact .authenticated fd _ hfd hnone' hanswer hplugin (hsuccess rfl) hsent
        · have hrefused : status' ≠ PWR_RET_SUCCESS := fun heq => hanswer (hstatus.mp heq)
          simp only [connect_return_failure _ hsocket' hrefused] at h
          cases h
          exact .refused fd _ _ hfd hnone' hsocket' hconnect' hanswer hrefused hplugin (Finmap.lookup_erase _ _)

/-- Whether a set call leaves the plugin sound depends on the authentication alone. -/
theorem ipc_socket_set_sound_iff {obj_type meta_name : Int} {attr_name : PwrAttrName} {attr_type : PwrAttrDataType}
    {value : TypeUnion} {path : String} (hsound : Sound ipc)
    (h : ipc_socket_set kernel obj_type attr_name meta_name attr_type value path ipc = some (status, ipc')) :
    Sound ipc' ↔ (ipc.plugin_data.any (fun fd => decide (fd < 0)) = true →
      0 ≤ ipc.os.results.socket → 0 ≤ ipc.os.results.connect → ipc.os.results.Answer ipc.context_name) := by
  obtain ⟨⟨status₁, ipc₁⟩, hconnect, h⟩ := Option.bind_eq_some_iff.mp h
  -- on an authenticated connection the rest of the call changes nothing that matters
  have hrest : status₁ = PWR_RET_SUCCESS → ∀ fd, ipc₁.plugin_data = some fd → ipc₁.os.Authenticated fd →
      (∀ x ∈ ipc₁.os.sent, ∀ set, x.2 = .PwrSET set →
        ∃ c, x.1 = some c ∧ c.connected = true ∧ c.authenticated = true) →
      Sound ipc' := by
    intro hstatus fd hfd hauth hsent
    have hsame : ipc' = ipc₁ → Sound ipc' := by
      rintro rfl
      exact ⟨fun fd' hfd' _ => Option.some.inj (hfd.symm.trans hfd') ▸ hauth, hsent⟩
    have hreq : ∀ set, ipc_socket_req kernel (.PwrSET set) ipc₁ = some (status, ipc') → Sound ipc' := by
      intro set hset
      obtain ⟨hplugin, hwritten, hkeeps⟩ := ipc_socket_req_step hfd hset
      refine ⟨fun fd' hfd' _ => Option.some.inj (hplugin.symm.trans hfd') ▸ hkeeps hauth, fun x hx set' hset' => ?_⟩
      rw [hwritten] at hx
      obtain hx | hx := List.mem_append.mp hx
      · exact hsent x hx set' hset'
      · rw [List.mem_singleton.mp hx]
        exact hauth
    simp only [hstatus, ne_eq, not_true, if_false] at h
    split at h
    · split at h
      · cases h
        exact hsame rfl
      · exact hreq _ h
    · split at h
      · cases h
        exact hsame rfl
      · exact hreq _ h
    · cases h
      exact hsame rfl
  cases ipc_socket_connect_step hconnect with
  | kept fd hfd hopen =>
    refine iff_of_true (hrest rfl fd hfd (hsound.kept fd hfd hopen) hsound.sent) ?_
    simp [hfd, not_lt.mpr hopen]
  | failed fd _ hfd hnone hfails hplugin hsent =>
    cases h
    refine iff_of_true ⟨fun fd' hfd' hopen => ?_, hsent ▸ hsound.sent⟩ fun _ hsocket hconnect => ?_
    · obtain rfl := Option.some.inj (hplugin.symm.trans hfd')
      omega
    · omega
  | authenticated fd _ hfd hnone hanswer hplugin hauth hsent =>
    exact iff_of_true (hrest rfl _ hplugin hauth fun x hx set hset => hsound.sent x (hsent x hx set hset) set hset)
      fun _ _ _ => hanswer
  | refused fd _ _ hfd hnone hsocket hconnect hanswer hstatus hplugin hclosed =>
    simp only [hstatus, ne_eq, not_false_eq_true, if_true, Option.some.injEq, Prod.mk.injEq] at h
    obtain ⟨_, rfl⟩ := h
    refine iff_of_false (fun hsound' => ?_) fun hanswered =>
      hanswer (hanswered (by simp [hfd, hnone]) hsocket hconnect)
    obtain ⟨c, hc, _⟩ := hsound'.kept _ hplugin hsocket
    rw [hclosed] at hc
    cases hc

theorem call_sound_iff {action : Call × Results} (hsound : Sound ipc) (hstep : CallStep ipc action ipc') :
    Sound ipc' ↔ Answered ipc action := by
  obtain ⟨call, results⟩ := action
  obtain ⟨status, h⟩ := hstep
  have hsound' : Sound (with_results ipc results) := ⟨hsound.kept, hsound.sent⟩
  cases call with
  | set_uint64 obj_type attr_name meta_name value path =>
    simp only [perform, ipc_socket_set_uint64] at h
    exact (ipc_socket_set_sound_iff hsound' h).trans ⟨fun h _ => h, fun h => h (by simp)⟩
  | set_double obj_type attr_name meta_name value path =>
    simp only [perform, ipc_socket_set_double] at h
    exact (ipc_socket_set_sound_iff hsound' h).trans ⟨fun h _ => h, fun h => h (by simp)⟩
  | destruct =>
    refine iff_of_true ?_ fun hdestruct => absurd rfl hdestruct
    obtain ⟨fd, hfd, heq⟩ := Option.map_eq_some_iff.mp h
    simp only [ipc_socket_destruct, hfd, Prod.mk.injEq] at heq
    rw [← heq.2]
    split
    · exact ⟨fun _ hfd => absurd hfd (by simp), hsound.sent⟩
    · exact ⟨fun _ hfd => absurd hfd (by simp), hsound.sent⟩

end Calls

section Runs

/-- The plugin after its construction. -/
def constructed (context_name : String) (context_role : PwrRole) : Ipc Kernel :=
  ipc_socket_construct context_name context_role {}

theorem constructed_sound (context_name : String) (context_role : PwrRole) :
    Sound (constructed context_name context_role) where
  kept fd hfd hopen := by
    cases hfd
    exact absurd hopen (by decide)
  sent := by simp [constructed, ipc_socket_construct]

/-- In every sequence of calls, a descriptor kept between calls is an authenticated
connection and set requests are only sent on such connections, if and only if every
PwrAUTH that the plugin gets to send on a new connection is answered with success. -/
theorem descriptors_sound_iff (context_name : String) (context_role : PwrRole)
    (run : List ((Call × Results) × Ipc Kernel))
    (hrun : EachStep CallStep (constructed context_name context_role) run) :
    (∀ x ∈ run, Sound x.2) ↔
      EachStep (fun ipc action _ => Answered ipc action) (constructed context_name context_role) run :=
  hrun.forall_iff (I := fun _ => True) trivial (constructed_sound context_name context_role)
    (fun _ _ _ _ _ => trivial) fun _ _ _ hstep _ hsound => call_sound_iff hsound hstep

/-- The run that makes the given calls. -/
def call_run (calls : List (Call × Results)) : List ((Call × Results) × Ipc Kernel) :=
  run_of (fun action ipc => (perform kernel action.1 (with_results ipc action.2)).map Prod.snd)
    calls (constructed "app" .APP)

theorem call_run_steps (calls : List (Call × Results)) :
    EachStep CallStep (constructed "app" .APP) (call_run calls) := by
  refine (eachStep_run_of _ _ calls).imp fun ipc action ipc' h => ?_
  obtain ⟨⟨status, _⟩, hcall, rfl⟩ := Option.map_eq_some_iff.mp h
  exact ⟨status, hcall⟩

/-- Two set calls; the first has its PwrAUTH answered with the given status. -/
def two_calls (auth_status : Int) : List (Call × Results) :=
  let set : Call := .set_uint64 0 .FREQ_REQ 0 5 "scaling_setspeed"
  let answer (retval : Int) : Int × Response := (sizeof_response, { retval })
  [(set, ⟨3, 0, [sizeof_request, sizeof_request], [answer auth_status, answer 0]⟩),
    (set, ⟨3, 0, [sizeof_request], [answer 0]⟩)]

theorem descriptors_sound_iff_two_calls :
    (call_run (two_calls PWR_RET_SUCCESS)).length = 2 ∧
    ∀ x ∈ call_run (two_calls PWR_RET_SUCCESS), Sound x.2 :=
  ⟨by decide, (descriptors_sound_iff "app" .APP _ (call_run_steps _)).mpr (by decide)⟩

/-- A first call whose PwrAUTH is refused: the plugin keeps the descriptor that it has closed. -/
theorem descriptors_not_sound :
    ¬ ∀ context_name context_role run, EachStep CallStep (constructed context_name context_role) run →
      ∀ x ∈ run, Sound x.2 := by
  intro hclaim
  have hclosed : ∃ x ∈ call_run (two_calls PWR_RET_INVALID), x.2.plugin_data = some 3 ∧
      x.2.os.descriptors.lookup 3 = none := by decide
  obtain ⟨x, hx, hkept, hnone⟩ := hclosed
  obtain ⟨c, hc, _⟩ := (hclaim _ _ _ (call_run_steps _) x hx).kept 3 hkept (by decide)
  rw [hnone] at hc
  cases hc

end Runs

end pwrapi.ipc
