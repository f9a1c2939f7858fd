import CrabOs.Net.Fetch

/-! What `fetch` returns of the stream that arrives on its connection, and what it has sent. -/
namespace CrabOs.Net.Fetch
open AtomicProgram AsciiText

/-! ### The network stack -/

/-- What the stack was asked for and found out before the exchange. -/
structure Route (Ip : Type) where
  servers : List Ip
  lookups : List (Ip × String)
  found : List Ip
  connections : List (Ip × ℕ × ℕ)

/-- The two directions of the connection: the bytes taken over for sending, and the bytes that have
arrived in order, with how many of them have been read. -/
structure Exchange (Ip : Type) where
  route : Route Ip
  established : Bool
  ended : Bool
  sent : List UInt8
  arrived : List UInt8
  read : ℕ

def Exchange.start {Ip : Type} : Exchange Ip := ⟨⟨[],[],[],[]⟩,false,false,[],[],0⟩

section Contract
variable {Ip : Type}

/-- More may have arrived, unless the peer's direction has ended. -/
def Exchange.Polls (s s' : Exchange Ip) : Prop :=
  ∃ established ended more,
    s' = { s with
      established := established
      ended := ended
      arrived := s.arrived++more } ∧
    (s.established → established) ∧ (s.ended → ended ∧ more = [])

/-- The stack as it is documented. A send takes over what its buffer has room for; `recv` shows the
beginning of what is unread, which `dequeue` then gives back; a connection that was established may
receive until the peer's direction has ended and everything is read. -/
def Exchange.outcome : (c : Call Ip) → Exchange Ip → Exchange Ip → Answer c → Prop
  | .poll _,s,s',_ => s.Polls s'
  | .pollDhcp,s,s',event => s' = match event with
    | some (.configured config) => { s with route := { s.route with servers := config.dnsServers } }
    | _ => s
  | .startQuery server host,s,s',started => s' =
    if started then { s with route := { s.route with lookups := s.route.lookups++[(server,host)] } }
    else s
  | .queryResult,s,s',result => s' = match result with
    | .ok addresses => { s with route := { s.route with found := addresses } }
    | .error _ => s
  | .connect remote port localPort,s,s',started => s' =
    if started then { s with route :=
      { s.route with connections := s.route.connections++[(remote,port,localPort)] } }
    else s
  | .maySend,s,s',ready => s' = s ∧ (ready → s.established)
  | .sendSlice bytes,s,s',count => match count with
    | none => s' = s
    | some n => (∃ room, bufferSize ≤ s.sent.length+room ∧ room ≤ bufferSize ∧
        n = min bytes.length room) ∧ s' = { s with sent := s.sent++bytes.take n }
  | .canRecv,s,s',ready => s' = s ∧ (ready = true ↔ s.read < s.arrived.length)
  | .recv,s,s',slice => s' = s ∧ ∀ bytes, slice = some bytes → bytes <+: s.arrived.drop s.read
  | .dequeue count,s,s',_ => s' = { s with read := s.read+count }
  | .mayRecv,s,s',more => s' = s ∧
    (more = false → s.read = s.arrived.length ∧ (s.established → s.ended))
  | _,s,s',_ => s' = s

/-- `connect` needs a new socket, and a reader gives back no more than there is. -/
def Exchange.guard : Call Ip → Exchange Ip → Prop
  | .connect _ _ _,s => s.route.connections = []
  | .dequeue count,s => s.read+count ≤ s.arrived.length
  | _,_ => True

def sockets : Guarded (Call Ip) Answer (Exchange Ip) := ⟨Exchange.guard,Exchange.outcome⟩

end Contract

/-! ### The exchange -/

lemma error_ne_ok {α : Type} {message : String} {a : α} {P : Prop}
    (h : (.error message : Except String α) = .ok a) : P := by
  cases h

section Loop
variable {Ip τ α : Type} {url : Url} {route : Route Ip}

/-- Between two rounds everything that was read is in the response, up to the limit, and the request
has been sent once or not at all. -/
structure Exchanging (url : Url) (route : Route Ip) (progress : Progress) (s : Exchange Ip) :
    Prop where
  route : s.route = route
  read : s.read ≤ s.arrived.length
  response : progress.response = (s.arrived.take s.read).take responseLimit
  unsent : ¬progress.sent → s.sent = []
  sent : progress.sent → s.established ∧ s.sent = (request url).take bufferSize

/-- What holds when the exchange is over. -/
structure Downloaded (url : Url) (s : Exchange Ip) (result : Except String (List UInt8)) :
    Prop where
  sent : s.sent = [] ∨ s.sent = (request url).take bufferSize
  response : ∀ response, result = .ok response → response = s.arrived.take responseLimit
  whole : ∀ response, result = .ok response → response.length < responseLimit →
    s.ended ∧ s.sent = (request url).take bufferSize

variable {progress : Progress} {s s' : Exchange Ip}

lemma Exchanging.downloaded_error (h : Exchanging url route progress s) (message : String) :
    Downloaded url s (.error message) where
  sent := by
    by_cases hs : progress.sent
    · exact .inr (h.sent hs).2
    · exact .inl (h.unsent hs)
  response _ hr := error_ne_ok hr
  whole _ hr := error_ne_ok hr

lemma Exchanging.polls (h : Exchanging url route progress s) (hp : s.Polls s') :
    Exchanging url route progress s' := by
  obtain ⟨established,ended,more,rfl,hestablished,-⟩ := hp
  refine ⟨h.route,?_,?_,h.unsent,fun hs => ⟨hestablished (h.sent hs).1,(h.sent hs).2⟩⟩
  · change s.read ≤ (s.arrived++more).length
    rw [List.length_append]
    exact h.read.trans (Nat.le_add_right _ _)
  · change progress.response = ((s.arrived++more).take s.read).take responseLimit
    rw [List.take_append_of_le_length h.read]
    exact h.response

/-- The response with what was handed over is what has been read then. -/
lemma Exchanging.read_more (h : Exchanging url route progress s) {bytes : List UInt8}
    (hb : bytes <+: s.arrived.drop s.read) : s.read+bytes.length ≤ s.arrived.length ∧
      Exchanging url route
        { progress with
          response := progress.response++bytes.take (responseLimit-progress.response.length) }
        { s with read := s.read+bytes.length } := by
  have hlength := hb.length_le
  rw [List.length_drop] at hlength
  have hread := h.read
  have hle : s.read+bytes.length ≤ s.arrived.length := by omega
  refine ⟨hle,h.route,hle,?_,h.unsent,h.sent⟩
  obtain ⟨rest,hrest⟩ := hb
  have hall : s.arrived.take (s.read+bytes.length) = s.arrived.take s.read++bytes := by
    rw [List.take_add,← hrest,List.take_left]
  change progress.response++_ = (s.arrived.take (s.read+bytes.length)).take responseLimit
  rw [hall,List.take_append,h.response,List.length_take]
  congr 2
  omega

lemma safe_pollNow {Q : Exchange Ip → Unit → Prop} (h : ∀ s', s.Polls s' → Q s' ()) :
    (pollNow : Program Ip Unit).Safe sockets Q s := by
  refine ⟨trivial,fun s₁ time ho => ⟨trivial,fun s₂ _ ho' => ?_⟩⟩
  obtain rfl : s₁ = s := ho
  exact h s₂ ho'

lemma safe_waitUntil {deadline : ℤ} {message : String} {carried : τ}
    {Q : Exchange Ip → τ ⊕ Except String α → Prop} (hleave : Q s (.inr (.error message)))
    (hstay : Q s (.inl carried)) :
    (waitUntil deadline message carried : Program Ip (τ ⊕ Except String α)).Safe sockets Q s := by
  simp only [waitUntil,ask,perform,bind_eq,pure_eq,call_bind,ret_bind]
  refine ⟨trivial,fun s₁ time ho => ?_⟩
  obtain rfl : s₁ = s := ho
  beta_reduce
  split_ifs
  · exact hleave
  · refine ⟨trivial,fun s₂ _ ho' => ?_⟩
    obtain rfl : s₂ = s₁ := ho'
    exact hstay

lemma safe_sendRequest (h : Exchanging url route progress s) :
    (sendRequest url progress).Safe sockets (fun s' r => match r with
      | none => Downloaded url s' (.error "HTTP request could not be sent") ∧ s'.route = route
      | some progress' => Exchanging url route progress' s') s := by
  simp only [sendRequest,ask,perform,bind_eq,pure_eq,call_bind,ret_bind]
  split_ifs with hs
  · exact h
  · refine ⟨trivial,fun s₁ ready ho => ?_⟩
    obtain ⟨rfl,hready⟩ : s₁ = s ∧ (ready → s.established) := ho
    beta_reduce
    split_ifs with hr
    · refine ⟨trivial,fun s₂ count ho' => ?_⟩
      cases count with
      | none =>
        obtain rfl : s₂ = s₁ := ho'
        exact ⟨h.downloaded_error _,h.route⟩
      | some n =>
        obtain ⟨⟨room,hlow,hhigh,rfl⟩,rfl⟩ := ho'
        have hempty := h.unsent hs
        have hroom : room = bufferSize := by
          rw [hempty,List.length_nil,Nat.zero_add] at hlow
          exact Nat.le_antisymm hhigh hlow
        refine ⟨h.route,h.read,h.response,fun hf => absurd rfl hf,fun _ => ⟨hready hr,?_⟩⟩
        change s₁.sent++(request url).take (min (request url).length room) = _
        rw [hempty,hroom,List.nil_append,Nat.min_comm,← List.take_eq_take_min]
    · exact h

lemma safe_readResponse (h : Exchanging url route progress s) :
    (readResponse progress).Safe sockets (fun s' r => match r with
      | none => Downloaded url s' (.error "HTTP response could not be read") ∧ s'.route = route
      | some progress' => Exchanging url route progress' s') s := by
  simp only [readResponse,ask,perform,bind_eq,pure_eq,call_bind,ret_bind]
  refine ⟨trivial,fun s₁ ready ho => ?_⟩
  obtain ⟨rfl,-⟩ := ho
  beta_reduce
  split_ifs
  · refine ⟨trivial,fun s₂ slice ho' => ?_⟩
    obtain ⟨rfl,hslice⟩ := ho'
    cases slice with
    | none => exact ⟨h.downloaded_error _,h.route⟩
    | some bytes =>
      obtain ⟨hle,hmore⟩ := h.read_more (hslice bytes rfl)
      refine ⟨hle,fun s₃ _ ho'' => ?_⟩
      obtain rfl : s₃ = { s₂ with read := s₂.read+bytes.length } := ho''
      exact hmore
  · exact h

/-- A response that is full, or that is all that will ever arrive. -/
lemma Exchanging.downloaded_full (h : Exchanging url route progress s)
    (hfull : progress.response.length = responseLimit) :
    Downloaded url s (.ok progress.response) where
  sent := (h.downloaded_error "").sent
  response response hr := by
    obtain rfl := Except.ok.inj hr
    have hlength := hfull
    rw [h.response,List.length_take,List.length_take] at hlength
    rw [h.response,List.take_take]
    congr 1
    omega
  whole response hr hless := by
    obtain rfl := Except.ok.inj hr
    omega

lemma Exchanging.downloaded_ended (h : Exchanging url route progress s) (hs : progress.sent)
    (hread : s.read = s.arrived.length) (hended : s.established → s.ended) :
    Downloaded url s (.ok progress.response) where
  sent := .inr (h.sent hs).2
  response response hr := by
    obtain rfl := Except.ok.inj hr
    rw [h.response,hread,List.take_length]
  whole _ _ _ := ⟨hended (h.sent hs).1,(h.sent hs).2⟩

lemma safe_finishOrWait {deadline : ℤ} (h : Exchanging url route progress s) :
    (finishOrWait deadline progress).Safe sockets (fun s' => Sum.elim
      (fun progress' => Exchanging url route progress' s')
      (fun result => Downloaded url s' result ∧ s'.route = route)) s := by
  have hrest : Safe sockets (if progress.response.length = responseLimit then
      (.ret (.inr (.ok progress.response)) : Program Ip (Progress ⊕ Except String (List UInt8)))
      else waitUntil deadline "HTTP request timed out" progress)
      (fun s' => Sum.elim (fun progress' => Exchanging url route progress' s')
        (fun result => Downloaded url s' result ∧ s'.route = route)) s := by
    split_ifs with hfull
    · exact ⟨h.downloaded_full hfull,h.route⟩
    · exact safe_waitUntil ⟨h.downloaded_error _,h.route⟩ h
  simp only [finishOrWait,responseEnded,ask,perform,bind_eq,pure_eq]
  by_cases hs : progress.sent
  · rw [if_pos hs]
    refine ⟨trivial,fun s₁ more ho => ?_⟩
    obtain ⟨rfl,hmore⟩ := ho
    cases more with
    | false =>
      obtain ⟨hread,hended⟩ := hmore rfl
      exact ⟨h.downloaded_ended hs hread hended,h.route⟩
    | true => exact hrest
  · rw [if_neg hs]
    exact hrest

/-- One round of the last loop. -/
lemma safe_exchange {deadline : ℤ} (h : Exchanging url route progress s) :
    (exchange url deadline progress).Safe sockets (fun s' => Sum.elim
      (fun progress' => Exchanging url route progress' s')
      (fun result => Downloaded url s' result ∧ s'.route = route)) s := by
  rw [exchange,bind_eq,safe_bind]
  refine safe_pollNow fun s₁ hp => ?_
  rw [bind_eq,safe_bind]
  refine (safe_sendRequest (h.polls hp)).mono ?_
  rintro s₂ (_ | progress₂) hsent
  · exact hsent
  · dsimp only
    rw [bind_eq,safe_bind]
    refine (safe_readResponse hsent).mono ?_
    rintro s₃ (_ | progress₃) hread
    · exact hread
    · exact safe_finishOrWait hread

end Loop

/-! ### The whole fetch -/

section Whole
variable {Ip : Type} {parseIp : String → Option Ip} {url : Url} {s : Exchange Ip}

/-- At most one connection, to the port of the URL at the address of its host; the name server is
asked only for a host that is not an address. -/
structure Routed (parseIp : String → Option Ip) (url : Url) (r : Route Ip) : Prop where
  connections : r.connections = [] ∨ ∃ remote localPort,
    r.connections = [(remote,url.port,localPort)] ∧ 49152 ≤ localPort ∧ localPort ≤ 59151 ∧
      (parseIp url.host = some remote ∨
        (parseIp url.host = none ∧ r.lookups ≠ [] ∧ r.found.head? = some remote))
  lookups : r.lookups = [] ∨ ∃ server, r.lookups = [(server,url.host)] ∧
    parseIp url.host = none ∧ r.servers.head? = some server

/-- What holds when `fetch` is over. -/
structure Fetched (parseIp : String → Option Ip) (url : Url) (s : Exchange Ip)
    (result : Except String (List UInt8)) : Prop where
  downloaded : Downloaded url s result
  routed : Routed parseIp url s.route
  connected : ∀ response, result = .ok response → s.route.connections ≠ []

/-- Nothing has been sent or read yet. -/
structure Untouched (s : Exchange Ip) : Prop where
  connections : s.route.connections = []
  sent : s.sent = []
  read : s.read = 0

lemma Untouched.polls {s' : Exchange Ip} (h : Untouched s) (hp : s.Polls s') :
    Untouched s' ∧ s'.route = s.route := by
  obtain ⟨established,ended,more,rfl,-,-⟩ := hp
  exact ⟨⟨h.connections,h.sent,h.read⟩,rfl⟩

lemma Untouched.fetched_error (h : Untouched s) (hl : s.route.lookups = [] ∨
    ∃ server, s.route.lookups = [(server,url.host)] ∧ parseIp url.host = none ∧
      s.route.servers.head? = some server) (message : String) :
    Fetched parseIp url s (.error message) where
  downloaded := ⟨.inl h.sent,fun _ hr => error_ne_ok hr,fun _ hr => error_ne_ok hr⟩
  routed := ⟨.inl h.connections,hl⟩
  connected _ hr := error_ne_ok hr

/-- The last phase, from a connection that is not open yet. -/
lemma safe_download (h : Untouched s) (fuel : ℕ) {remote : Ip}
    (hremote : parseIp url.host = some remote ∨
      (parseIp url.host = none ∧ s.route.lookups ≠ [] ∧ s.route.found.head? = some remote))
    (hl : s.route.lookups = [] ∨ ∃ server, s.route.lookups = [(server,url.host)] ∧
      parseIp url.host = none ∧ s.route.servers.head? = some server) :
    (download fuel url remote).Safe sockets (Fetched parseIp url) s := by
  simp only [download,ask,perform,bind_eq,pure_eq,call_bind,ret_bind]
  refine ⟨trivial,fun s₁ time ho => ?_⟩
  obtain rfl : s₁ = s := ho
  refine ⟨h.connections,fun s₂ started ho' => ?_⟩
  have hport : 49152 ≤ localPort time ∧ localPort time ≤ 59151 := by
    unfold localPort
    omega
  cases started with
  | false =>
    obtain rfl : s₂ = s₁ := ho'
    exact h.fetched_error hl _
  | true =>
    refine ⟨trivial,fun s₃ time' ho'' => ?_⟩
    obtain rfl : s₃ = s₂ := ho''
    have hroute : s₃.route = { s₁.route with
        connections := [(remote,url.port,localPort time)] } := by
      rw [show s₃ = _ from ho',if_pos rfl,h.connections]
      rfl
    have hstart : Exchanging url s₃.route ⟨[],false⟩ s₃ := by
      rw [show s₃ = _ from ho',if_pos rfl]
      refine ⟨rfl,?_,?_,fun _ => h.sent,fun hf => Bool.noConfusion hf⟩
      · change s₁.read ≤ _
        rw [h.read]
        exact Nat.zero_le _
      · change [] = (s₁.arrived.take s₁.read).take responseLimit
        rw [h.read]
        rfl
    refine (safe_iterate (Exchanging url s₃.route) (Q := fun s' result =>
      Downloaded url s' result ∧ s'.route = s₃.route) (fun _ _ => safe_exchange) fuel
      hstart).mono ?_
    rintro s₄ result ⟨hdown,hkeep⟩
    refine ⟨hdown,?_,fun _ _ => by rw [hkeep,hroute]; exact List.cons_ne_nil _ _⟩
    rw [hkeep,hroute]
    exact ⟨.inr ⟨remote,localPort time,rfl,hport.1,hport.2,hremote⟩,hl⟩

/-- One round of the query. -/
lemma safe_lookUp {deadline : ℤ} {t : Unit} {route : Route Ip} (h : Untouched s)
    (hroute : s.route.lookups = route.lookups ∧ s.route.servers = route.servers) :
    (lookUp deadline t).Safe sockets (fun s' => Sum.elim
      (fun _ => Untouched s' ∧ s'.route.lookups = route.lookups ∧ s'.route.servers = route.servers)
      (fun result => (Untouched s' ∧ s'.route.lookups = route.lookups ∧
        s'.route.servers = route.servers) ∧
        ∀ remote, result = .ok remote → s'.route.found.head? = some remote)) s := by
  rw [lookUp,bind_eq,safe_bind]
  refine safe_pollNow fun s₁ hp => ?_
  obtain ⟨h₁,hsame⟩ := h.polls hp
  rw [← hsame] at hroute
  refine ⟨trivial,fun s₂ result ho => ?_⟩
  have hrest : ∀ found, s₂ = { s₁ with route := { s₁.route with found := found } } →
      Untouched s₂ ∧ s₂.route.lookups = route.lookups ∧ s₂.route.servers = route.servers := by
    rintro found rfl
    exact ⟨⟨h₁.connections,h₁.sent,h₁.read⟩,hroute⟩
  cases result with
  | ok addresses =>
    cases addresses with
    | nil => exact ⟨hrest _ ho,fun _ hr => error_ne_ok hr⟩
    | cons address addresses =>
      refine ⟨trivial,fun s₃ _ ho' => ⟨?_,fun remote hr => ?_⟩⟩
      · obtain rfl : s₃ = s₂ := ho'
        exact hrest _ ho
      · obtain rfl : s₃ = s₂ := ho'
        obtain rfl := Except.ok.inj hr
        rw [show s₃ = _ from ho]
        rfl
  | error e =>
    obtain rfl : s₂ = s₁ := ho
    cases e with
    | failed => exact ⟨⟨h₁,hroute⟩,fun _ hr => error_ne_ok hr⟩
    | pending =>
      exact safe_waitUntil ⟨⟨h₁,hroute⟩,fun _ hr => error_ne_ok hr⟩ ⟨h₁,hroute⟩

/-- A host that is no address is looked up once. -/
lemma safe_resolve (h : Untouched s) (hl : s.route.lookups = []) (fuel : ℕ) :
    (resolve parseIp fuel s.route.servers.head? url.host).Safe sockets (fun s' result =>
      Untouched s' ∧ (s'.route.lookups = [] ∨ ∃ server, s'.route.lookups = [(server,url.host)] ∧
        parseIp url.host = none ∧ s'.route.servers.head? = some server) ∧
      ∀ remote, result = .ok remote → parseIp url.host = some remote ∨
        (parseIp url.host = none ∧ s'.route.lookups ≠ [] ∧ s'.route.found.head? = some remote))
      s := by
  unfold resolve
  split
  next address hip =>
    refine ⟨h,.inl hl,fun remote hr => .inl ?_⟩
    rw [hip,Except.ok.inj hr]
  next hip =>
    split
    next => exact ⟨h,.inl hl,fun _ hr => error_ne_ok hr⟩
    next server hserver =>
      simp only [ask,perform,bind_eq,pure_eq,call_bind,ret_bind]
      refine ⟨trivial,fun s₁ started ho => ?_⟩
      cases started with
      | false =>
        obtain rfl : s₁ = s := ho
        exact ⟨h,.inl hl,fun _ hr => error_ne_ok hr⟩
      | true =>
        obtain rfl : s₁ = { s with route :=
            { s.route with lookups := s.route.lookups++[(server,url.host)] } } := ho
        refine ⟨trivial,fun s₂ time ho' => ?_⟩
        have h₂ : Untouched s₂ ∧ s₂.route.lookups = [(server,url.host)] ∧
            s₂.route.servers = s.route.servers := by
          rw [show s₂ = _ from ho']
          refine ⟨⟨h.connections,h.sent,h.read⟩,?_,rfl⟩
          rw [hl,List.nil_append]
        refine (safe_iterate (fun _ s' => Untouched s' ∧ s'.route.lookups = s₂.route.lookups ∧
          s'.route.servers = s₂.route.servers) (fun _ _ hs => safe_lookUp hs.1 hs.2) fuel
          ⟨h₂.1,rfl,rfl⟩).mono ?_
        rintro s₃ result ⟨⟨h₃,hlookups,hservers⟩,hfound⟩
        rw [h₂.2.1] at hlookups
        rw [h₂.2.2] at hservers
        refine ⟨h₃,.inr ⟨server,hlookups,hip,by rw [hservers,hserver]⟩,fun remote hr => ?_⟩
        exact .inr ⟨hip,by rw [hlookups]; exact List.cons_ne_nil _ _,hfound remote hr⟩

/-- One round of the wait for a lease. -/
lemma safe_configure {deadline : ℤ} {t : Unit} (h : Untouched s) (hl : s.route.lookups = []) :
    (configure deadline t).Safe sockets (fun s' => Sum.elim
      (fun _ => Untouched s' ∧ s'.route.lookups = [])
      (fun result => (Untouched s' ∧ s'.route.lookups = []) ∧
        ∀ server, result = .ok server → server = s'.route.servers.head?)) s := by
  rw [configure,bind_eq,safe_bind]
  refine safe_pollNow fun s₁ hp => ?_
  obtain ⟨h₁,hsame⟩ := h.polls hp
  rw [← hsame] at hl
  refine ⟨trivial,fun s₂ event ho => ?_⟩
  have hwait : Safe sockets (waitUntil deadline "DHCP timed out" () :
      Program Ip (Unit ⊕ Except String (Option Ip))) (fun s' => Sum.elim
        (fun _ => Untouched s' ∧ s'.route.lookups = [])
        (fun result => (Untouched s' ∧ s'.route.lookups = []) ∧
          ∀ server, result = .ok server → server = s'.route.servers.head?)) s₁ :=
    safe_waitUntil ⟨⟨h₁,hl⟩,fun _ hr => error_ne_ok hr⟩ ⟨h₁,hl⟩
  cases event with
  | none =>
    obtain rfl : s₂ = s₁ := ho
    exact hwait
  | some event =>
    cases event with
    | deconfigured =>
      obtain rfl : s₂ = s₁ := ho
      exact hwait
    | configured config =>
      obtain rfl : s₂ = { s₁ with route := { s₁.route with servers := config.dnsServers } } := ho
      have h₂ : Untouched { s₁ with route := { s₁.route with servers := config.dnsServers } } :=
        ⟨h₁.connections,h₁.sent,h₁.read⟩
      have hok : ∀ server : Option Ip,
          (.ok config.dnsServers.head? : Except String (Option Ip)) = .ok server →
            server = config.dnsServers.head? := fun server hr => (Except.ok.inj hr).symm
      refine ⟨trivial,fun s₃ _ ho' => ?_⟩
      obtain rfl := show s₃ = _ from ho'
      dsimp only
      split
      · exact ⟨⟨h₂,hl⟩,hok⟩
      · refine ⟨trivial,fun s₄ set ho'' => ?_⟩
        obtain rfl := show s₄ = _ from ho''
        cases set with
        | false => exact ⟨⟨h₂,hl⟩,fun _ hr => error_ne_ok hr⟩
        | true => exact ⟨⟨h₂,hl⟩,hok⟩

/-- The whole of `fetch` on a network stack nobody has used. -/
lemma safe_fetch (parseIp : String → Option Ip) (fuel : ℕ) (device : Option (Vector UInt8 6))
    (url : Url) : (fetch parseIp fuel device url).Safe sockets (Fetched parseIp url) .start := by
  have hstart : Untouched (.start : Exchange Ip) := ⟨rfl,rfl,rfl⟩
  cases device with
  | none => exact hstart.fetched_error (.inl rfl) _
  | some mac =>
    refine ⟨trivial,fun s₁ up ho₁ => ?_⟩
    obtain rfl : s₁ = .start := ho₁
    cases up with
    | false => exact hstart.fetched_error (.inl rfl) _
    | true =>
      refine ⟨trivial,fun s₂ seed ho₂ => ⟨trivial,fun s₃ created ho₃ => ⟨trivial,fun s₄ _ ho₄ =>
        ⟨trivial,fun s₅ time ho₅ => ?_⟩⟩⟩⟩
      obtain rfl : s₂ = .start := ho₂
      obtain rfl := show s₃ = _ from ho₃
      obtain rfl := show s₄ = _ from ho₄
      obtain rfl := show s₅ = _ from ho₅
      beta_reduce
      rw [ret_bind,bind_eq,safe_bind]
      refine (safe_iterate (fun _ s' => Untouched s' ∧ s'.route.lookups = [])
        (fun _ _ hs => safe_configure hs.1 hs.2) fuel ⟨hstart,rfl⟩).mono ?_
      rintro s₆ (message | dnsServer) ⟨⟨h₆,hl⟩,hserver⟩
      · exact h₆.fetched_error (.inl hl) _
      · obtain rfl := hserver _ rfl
        dsimp only
        rw [bind_eq,safe_bind]
        refine (safe_resolve h₆ hl fuel).mono ?_
        rintro s₇ (message | remote) ⟨h₇,hlookups,hremote⟩
        · exact h₇.fetched_error hlookups _
        · exact safe_download h₇ fuel (hremote remote rfl) hlookups

end Whole

/-! ### What a caller can rely on -/

/-- A returned response is the beginning of what the server sent, whole if it is below the limit,
and then the server has been sent the request. -/
theorem fetch_response_whole {Ip : Type} (parseIp : String → Option Ip) (fuel : ℕ)
    (device : Option (Vector UInt8 6)) (url : Url) :
    (fetch parseIp fuel device url).Safe sockets (fun s result => ∀ response,
      result = .ok response →
        response = s.arrived.take responseLimit ∧
        (response.length < responseLimit →
          response = s.arrived ∧ s.ended ∧ s.sent = (request url).take bufferSize)) .start := by
  refine (safe_fetch parseIp fuel device url).mono fun s result h response hr => ?_
  have hresponse := h.downloaded.response response hr
  refine ⟨hresponse,fun hless => ⟨?_,h.downloaded.whole response hr hless⟩⟩
  rw [hresponse,List.length_take] at hless
  rw [hresponse,List.take_of_length_le (by omega)]

lemma bytes_length_eq (s : String) :
    (bytes s).length = (s.toList.flatMap String.utf8EncodeChar).length := by
  rw [bytes_eq]

/-- The parts of a URL are no longer than its text. -/
lemma parse_length {text : String} {url : Url} (h : Url.parse text = .ok url) :
    (bytes url.path).length+(bytes url.host).length ≤ (bytes text).length := by
  obtain ⟨host,part,path,htext,-,-,-,hhost,hpath⟩ := (Url.parse_iff text url).mp h
  rw [bytes_length_eq text,htext,hhost,hpath,bytes_length_eq (String.ofList host)]
  simp only [String.toList_ofList,List.flatMap_append,List.length_append]
  split_ifs with hroot
  · rw [show (bytes "/").length = 1 by decide]
    have : ("http://".toList.flatMap String.utf8EncodeChar).length = 7 := by decide
    omega
  · rw [bytes_length_eq,String.toList_ofList]
    omega

lemma request_length (url : Url) :
    (request url).length = 74+(bytes url.path).length+(bytes url.host).length := by
  unfold request
  simp only [List.length_append]
  rw [show (bytes "GET ").length = 4 by decide,
    show (bytes " HTTP/1.0\r\nHost: ").length = 17 by decide,
    show (bytes "\r\nConnection: close\r\nAccept: text/html,text/plain\r\n\r\n").length = 53 by
      decide]
  omega

/-- For a URL from a line of the shell: the request goes out in one piece and at most once, over at
most one connection to the port of the URL, whose address is that of the host. -/
theorem fetch_request_once {Ip : Type} (parseIp : String → Option Ip) (fuel : ℕ)
    (device : Option (Vector UInt8 6)) {text : String} {url : Url} (h : Url.parse text = .ok url)
    (hline : (bytes text).length ≤ 256) :
    (fetch parseIp fuel device url).Safe sockets (fun s result =>
      (s.sent = [] ∨ s.sent = request url) ∧ Routed parseIp url s.route ∧
      ∀ response, result = .ok response →
        s.route.connections ≠ [] ∧ (response.length < responseLimit → s.sent = request url))
      .start := by
  have hfits : (request url).take bufferSize = request url := by
    refine List.take_of_length_le ?_
    have := parse_length h
    rw [request_length]
    unfold bufferSize
    omega
  refine (safe_fetch parseIp fuel device url).mono fun s result hf => ?_
  refine ⟨?_,hf.routed,fun response hr => ⟨hf.connected response hr,fun hless => ?_⟩⟩
  · rw [← hfits]
    exact hf.downloaded.sent
  · rw [← hfits]
    exact (hf.downloaded.whole response hr hless).2

theorem fetch_request_once_root :
    (fetch (fun _ => (none : Option ℕ)) 100 (some (.replicate 6 0)) ⟨"a.b",80,"/"⟩).Safe sockets
      (fun s result =>
      (s.sent = [] ∨ s.sent = request ⟨"a.b",80,"/"⟩) ∧
      Routed (fun _ => none) ⟨"a.b",80,"/"⟩ s.route ∧
      ∀ response, result = .ok response → s.route.connections ≠ [] ∧
        (response.length < responseLimit → s.sent = request ⟨"a.b",80,"/"⟩)) .start := by
  have h : Url.parse "http://a.b" = .ok ⟨"a.b",80,"/"⟩ := by
    rw [Url.parse_iff]
    exact ⟨['a','.','b'],[],[],by decide,⟨by decide,forall_mem_of_all (by decide)⟩,
      .inl (.inl ⟨rfl,rfl⟩),.inl rfl,rfl,rfl⟩
  exact fetch_request_once _ 100 _ h (by decide)

end CrabOs.Net.Fetch
