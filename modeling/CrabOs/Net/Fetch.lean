import CrabOs.Foundations.Deadlines
import CrabOs.Net.Request

/-! Fetching a page: a lease, an address for the host and one exchange over TCP, each of them a loop
with a deadline around the network stack. -/
namespace CrabOs.Net.Fetch
open AtomicProgram AsciiText

structure DhcpConfig (Ip : Type) where
  address : Ip × ℕ
  router : Option Ip
  dnsServers : List Ip

inductive DhcpEvent (Ip : Type)
  | deconfigured
  | configured (config : DhcpConfig Ip)

inductive QueryError
  | pending
  | failed

/-- What `fetch` asks of the controller, the clock, the processor and the sockets. The closure that
reads the response has its own call: it gives back as many bytes as it was handed. -/
inductive Call (Ip : Type)
  | linkUp
  | uptimeMillis
  | newInterface (mac : Vector UInt8 6) (seed : ℕ) (now : ℤ)
  | poll (now : ℤ)
  | hlt
  | pollDhcp
  | setAddress (address : Ip × ℕ)
  | addDefaultRoute (router : Ip)
  | startQuery (server : Ip) (host : String)
  | queryResult
  | removeQuery
  | connect (remote : Ip) (port localPort : ℕ)
  | maySend
  | sendSlice (bytes : List UInt8)
  | canRecv
  | recv
  | dequeue (count : ℕ)
  | mayRecv

/-- `false` and `none` are the errors of calls that only succeed or fail. -/
abbrev Answer {Ip : Type} : Call Ip → Type
  | .uptimeMillis => ℤ
  | .pollDhcp => Option (DhcpEvent Ip)
  | .queryResult => Except QueryError (List Ip)
  | .sendSlice _ => Option ℕ
  | .recv => Option (List UInt8)
  | .linkUp | .addDefaultRoute _ | .startQuery _ _ | .connect _ _ _ => Bool
  | .maySend | .canRecv | .mayRecv => Bool
  | .newInterface _ _ _ | .poll _ | .hlt | .setAddress _ | .removeQuery | .dequeue _ => Unit

abbrev Program (Ip α : Type) := AtomicProgram (Call Ip) Answer α

abbrev ask {Ip : Type} (call : Call Ip) : Program Ip (Answer call) := perform call

def responseLimit : ℕ := 16384
def bufferSize : ℕ := 4096

section
variable {Ip α τ : Type}

/-- The end of each loop's body. -/
def waitUntil (deadline : ℤ) (message : String) (carried : τ) :
    Program Ip (τ ⊕ Except String α) := do
  let time : ℤ ← ask .uptimeMillis
  if deadline ≤ time then return .inr (.error message)
  ask .hlt
  return .inl carried

/-- `interface.poll(now(), ..)`. -/
def pollNow : Program Ip Unit := do
  let time : ℤ ← ask .uptimeMillis
  ask (.poll time)

def configure (deadline : ℤ) : Unit → Program Ip (Unit ⊕ Except String (Option Ip)) := fun _ => do
  pollNow
  match ← ask .pollDhcp with
  | some (.configured config) =>
    ask (.setAddress config.address)
    match config.router with
    | none => return .inr (.ok config.dnsServers.head?)
    | some router =>
      if ← ask (.addDefaultRoute router) then return .inr (.ok config.dnsServers.head?)
      else return .inr (.error "DHCP route could not be set")
  | _ => waitUntil deadline "DHCP timed out" ()

def lookUp (deadline : ℤ) : Unit → Program Ip (Unit ⊕ Except String Ip) := fun _ => do
  pollNow
  match ← ask .queryResult with
  | .ok [] => return .inr (.error "DNS returned no address")
  | .ok (address :: _) =>
    ask .removeQuery
    return .inr (.ok address)
  | .error .failed => return .inr (.error "DNS lookup failed")
  | .error .pending => waitUntil deadline "DNS lookup timed out" ()

/-- The address of the host: read from its text, or asked from the first server of the lease. -/
def resolve (parseIp : String → Option Ip) (fuel : ℕ) (dnsServer : Option Ip) (host : String) :
    Program Ip (Except String Ip) :=
  match parseIp host with
  | some address => return .ok address
  | none => match dnsServer with
    | none => return .error "DHCP supplied no DNS server"
    | some server => do
      if ← ask (.startQuery server host) then
        let time : ℤ ← ask .uptimeMillis
        iterate (lookUp (time+5000)) fuel ()
      else return .error "DNS query could not start"

/-- The locals of the last loop. -/
structure Progress where
  response : List UInt8
  sent : Bool

/-- Send the request as soon as the connection takes it; `false` is an error. -/
def sendRequest (url : Url) (progress : Progress) : Program Ip (Option Progress) := do
  if progress.sent then return some progress
  if ← ask .maySend then
    match ← ask (.sendSlice (request url)) with
    | none => return none
    | some _ => return some { progress with sent := true }
  else return some progress

/-- Take what has arrived; what is over the limit is dropped. -/
def readResponse (progress : Progress) : Program Ip (Option Progress) := do
  if ← ask .canRecv then
    match ← ask .recv with
    | none => return none
    | some bytes =>
      let available := responseLimit-progress.response.length
      ask (.dequeue bytes.length)
      return some { progress with response := progress.response++bytes.take available }
  else return some progress

/-- `sent && !socket.may_recv()`. -/
def responseEnded (progress : Progress) : Program Ip Bool := do
  if progress.sent then return !(← ask .mayRecv)
  else return false

/-- One round of the last loop after its request and its read. -/
def finishOrWait (deadline : ℤ) (progress : Progress) :
    Program Ip (Progress ⊕ Except String (List UInt8)) := do
  if ← responseEnded progress then return .inr (.ok progress.response)
  if progress.response.length = responseLimit then return .inr (.ok progress.response)
  waitUntil deadline "HTTP request timed out" progress

def exchange (url : Url) (deadline : ℤ) (progress : Progress) :
    Program Ip (Progress ⊕ Except String (List UInt8)) := do
  pollNow
  match ← sendRequest url progress with
  | none => return .inr (.error "HTTP request could not be sent")
  | some progress => match ← readResponse progress with
    | none => return .inr (.error "HTTP response could not be read")
    | some progress => finishOrWait deadline progress

/-- `49152 + (now().total_millis() as u16 % 10000)`. -/
def localPort (time : ℤ) : ℕ := 49152+(time % 65536).toNat % 10000

/-- Connect and run the exchange. -/
def download (fuel : ℕ) (url : Url) (remote : Ip) : Program Ip (Except String (List UInt8)) := do
  let time : ℤ ← ask .uptimeMillis
  if ← ask (.connect remote url.port (localPort time)) then
    let time : ℤ ← ask .uptimeMillis
    iterate (exchange url (time+10000)) fuel ⟨[],false⟩
  else return .error "TCP connection could not start"

/-- `fetch` with the address of the initialized controller. The loops of the source have no other
bound than their deadline; here each runs at most `fuel` rounds. -/
def fetch (parseIp : String → Option Ip) (fuel : ℕ) (device : Option (Vector UInt8 6)) (url : Url) :
    Program Ip (Except String (List UInt8)) :=
  match device with
  | none => return .error "no initialized Ethernet controller"
  | some mac => do
    if ← ask .linkUp then
      let seed : ℤ ← ask .uptimeMillis
      let created : ℤ ← ask .uptimeMillis
      ask (.newInterface mac (seed % 2^64).toNat created)
      let time : ℤ ← ask .uptimeMillis
      match ← iterate (configure (time+5000)) fuel () with
      | .error message => return .error message
      | .ok dnsServer => match ← resolve parseIp fuel dnsServer url.host with
        | .error message => return .error message
        | .ok remote => download fuel url remote
    else return .error "Ethernet link is down"

end

/-! ### The time it takes -/

section Time

def clock (Ip : Type) : Clock (Call Ip) Answer := ⟨.uptimeMillis,id,.hlt⟩

open Clock

variable {Ip τ α : Type} {delay wakes calls : ℕ} {deadline : ℤ}

lemma round_waitUntil (message : String) (carried : τ) :
    Round (clock Ip) delay wakes 1 deadline
      (waitUntil deadline message carried : Program Ip (τ ⊕ Except String α)) := by
  have h : (waitUntil deadline message carried : Program Ip (τ ⊕ Except String α)) =
      .call .uptimeMillis fun time => if deadline ≤ time then .ret (.inr (.error message)) else
        .call .hlt fun _ => .ret (.inl carried) := by
    simp only [waitUntil,ask,perform,bind_eq,pure_eq,call_bind,ret_bind]
  rw [h]
  exact round_check (K := clock Ip) _ _

lemma round_configure (t : Unit) :
    Round (clock Ip) delay wakes 5 deadline (configure deadline t) := by
  simp only [configure,pollNow,ask,perform,bind_eq,pure_eq,call_bind,ret_bind]
  refine round_call fun time => round_call fun _ => round_call fun event => ?_
  split
  · refine round_call fun _ => ?_
    split
    · exact round_leave _
    · refine round_call fun set => ?_
      split_ifs <;> exact round_leave _
  · exact (round_waitUntil _ _).mono (by omega)

lemma round_lookUp (t : Unit) :
    Round (clock Ip) delay wakes 4 deadline (lookUp deadline t) := by
  simp only [lookUp,pollNow,ask,perform,bind_eq,pure_eq,call_bind,ret_bind]
  refine round_call fun time => round_call fun _ => round_call fun result => ?_
  split
  · exact round_leave _
  · exact round_call fun _ => round_leave _
  · exact round_leave _
  · exact round_waitUntil _ _

lemma round_sendRequest (calls : ℕ) (url : Url) (progress : Progress)
    {next : Option Progress → Program Ip (τ ⊕ α)}
    (h : ∀ r, Round (clock Ip) delay wakes calls deadline (next r)) :
    Round (clock Ip) delay wakes (calls+2) deadline ((sendRequest url progress).bind next) := by
  simp only [sendRequest,ask,perform,bind_eq,pure_eq,call_bind,ret_bind]
  split_ifs
  · exact (h _).mono (by omega)
  · refine round_call fun ready => ?_
    beta_reduce
    split_ifs
    · refine round_call fun count => ?_
      beta_reduce
      split <;> exact h _
    · exact (h _).mono (by omega)

lemma round_readResponse (progress : Progress) {next : Option Progress → Program Ip (τ ⊕ α)}
    (h : ∀ r, Round (clock Ip) delay wakes calls deadline (next r)) :
    Round (clock Ip) delay wakes (calls+3) deadline ((readResponse progress).bind next) := by
  simp only [readResponse,ask,perform,bind_eq,pure_eq,call_bind,ret_bind]
  refine round_call fun ready => ?_
  split_ifs
  · refine round_call fun slice => ?_
    beta_reduce
    split
    · exact (h _).mono (by omega)
    · exact round_call fun _ => h _
  · exact (h _).mono (by omega)

lemma round_finishOrWait (progress : Progress) :
    Round (clock Ip) delay wakes 2 deadline (finishOrWait deadline progress) := by
  have hrest : ∀ ended : Bool, Round (clock Ip) delay wakes 1 deadline
      (if ended then (.ret (.inr (.ok progress.response)))
      else if progress.response.length = responseLimit then .ret (.inr (.ok progress.response))
      else waitUntil deadline "HTTP request timed out" progress) := by
    intro ended
    split_ifs
    · exact round_leave _
    · exact round_leave _
    · exact round_waitUntil _ _
  simp only [finishOrWait,responseEnded,ask,perform,bind_eq,pure_eq]
  by_cases hs : progress.sent
  · rw [if_pos hs]
    exact round_call fun more => hrest _
  · rw [if_neg hs]
    exact (hrest false).mono (by omega)

lemma round_exchange (url : Url) (progress : Progress) :
    Round (clock Ip) delay wakes 9 deadline (exchange url deadline progress) := by
  simp only [exchange,pollNow,ask,perform,bind_eq,pure_eq,call_bind,ret_bind]
  refine round_call fun time => round_call fun _ => round_sendRequest 5 url progress ?_
  rintro (_ | progress)
  · exact round_leave _
  · refine round_readResponse progress ?_
    rintro (_ | progress)
    · exact round_leave _
    · exact round_finishOrWait progress

variable {fuel : ℕ} (hfuel : (10000+delay+1)*(wakes+1) ≤ fuel)
include hfuel

lemma fuel_half : (5000+delay+1)*(wakes+1) ≤ fuel :=
  (Nat.mul_le_mul_right _ (by omega)).trans hfuel

lemma lasts_resolve (parseIp : String → Option Ip) (dnsServer : Option Ip) (host : String) :
    Lasts (clock Ip) delay wakes (5000+(4+2)*delay+delay) (resolve parseIp fuel dnsServer host) := by
  unfold resolve
  split
  · exact lasts_ret _
  · split
    · exact lasts_ret _
    · simp only [ask,perform,bind_eq,pure_eq,call_bind,ret_bind]
      refine lasts_call fun started => ?_
      split_ifs
      · exact lasts_loop (K := clock Ip) lookUp 5000 (fun deadline t => round_lookUp t) (fuel_half hfuel) ()
      · exact lasts_ret _

lemma lasts_download (url : Url) (remote : Ip) :
    Lasts (clock Ip) delay wakes (10000+(9+2)*delay+delay+delay) (download fuel url remote) := by
  simp only [download,ask,perform,bind_eq,pure_eq,call_bind,ret_bind]
  refine lasts_call fun time => lasts_call fun connected => ?_
  split_ifs
  · exact lasts_loop (K := clock Ip) (exchange url) 10000
      (fun deadline progress => round_exchange url progress) hfuel ⟨[],false⟩
  · exact lasts_ret _

lemma lasts_fetch (parseIp : String → Option Ip) (device : Option (Vector UInt8 6)) (url : Url) :
    Lasts (clock Ip) delay wakes (20000+31*delay) (fetch parseIp fuel device url) := by
  cases device with
  | none => exact lasts_ret _
  | some mac =>
    simp only [fetch,ask,perform,bind_eq,pure_eq,call_bind,ret_bind]
    have hlease := lasts_loop (K := clock Ip) configure 5000
      (fun deadline t => round_configure t) (fuel_half hfuel) ()
    have hrest : ∀ lease : Except String (Option Ip), Lasts (clock Ip) delay wakes
        (5000+(4+2)*delay+delay+(10000+(9+2)*delay+delay+delay))
        (match lease with
          | .error message => (.ret (.error message) : Program Ip (Except String (List UInt8)))
          | .ok dnsServer => (resolve parseIp fuel dnsServer url.host).bind fun
            | .error message => .ret (.error message)
            | .ok remote => download fuel url remote) := by
      rintro (message | dnsServer)
      · exact lasts_ret _
      · refine lasts_bind (lasts_resolve hfuel _ _ _) ?_
        rintro (message | remote)
        · exact lasts_ret _
        · exact lasts_download hfuel url remote
    have hall := lasts_bind hlease hrest
    refine Lasts.mono ?_ (show 5000+(5+2)*delay+(5000+(4+2)*delay+delay+
      (10000+(9+2)*delay+delay+delay))+delay+delay+delay+delay ≤ 20000+31*delay by omega)
    refine lasts_call fun up => ?_
    split_ifs
    · exact lasts_call fun seed => lasts_call fun created => lasts_call fun _ => hall
    · exact lasts_ret _

end Time

/-- Whatever the network does, `fetch` returns within twenty seconds and 31 times the longest delay
of one call, if time goes on while the processor waits. -/
theorem fetch_returns_in_time {Ip : Type} (parseIp : String → Option Ip) {delay wakes fuel : ℕ}
    (hfuel : (10000+delay+1)*(wakes+1) ≤ fuel) (device : Option (Vector UInt8 6)) (url : Url)
    (s : Timer) : (fetch parseIp fuel device url).Spec ((clock Ip).timed delay wakes)
      (fun s' _ => s'.clock ≤ s.clock+20000+31*delay) s := by
  refine (lasts_fetch hfuel parseIp device url s).mono fun s' _ h => ?_
  push_cast at h
  omega

/-- Ticks of ten milliseconds with at most a hundred keys and mouse bytes between two of them. -/
theorem fetch_returns_in_time_ticks :
    (fetch (fun _ => (none : Option ℕ)) 1011111 (some (.replicate 6 0)) ⟨"a.b",80,"/"⟩).Spec
      ((clock ℕ).timed 10 100) (fun s' _ => s'.clock ≤ 25310) ⟨5000,0⟩ := by
  have hfuel : (10000+10+1)*(100+1) ≤ 1011111 := by decide
  refine (fetch_returns_in_time _ hfuel _ _ _).mono fun s' _ h => ?_
  exact h

end CrabOs.Net.Fetch
