import SkyMoonScope.Core.RpcProvider.Registry

/-!
# Failover between RPC providers

A simulation is tried at one provider after another, in the order the registry offers them, until
one answers. Whether the next one is tried after an error is read off the text of the error: the
status of an HTTP error is expected at its end, where the text has the reason phrase.

## Main definitions

* `Outcome`: what happens to one request, and `Outcome.Retryable`: the failures that another
  provider may make good
* `simulateTransactionSingle`: the result or error of one request
* `shouldRetry`: whether the next provider is tried after an error
* `simulateTransactionWithFailover`: the loop over the providers

## Main results

* `shouldRetry_httpError`: no HTTP status is retried
* `failover_iff`: a provider that succeeds after others have failed retryably is reached exactly
  when none of these failures is an HTTP status
-/

namespace Core.Simulation

open Providers

/-! ## One request -/

inductive SimulationError
  | io (message : String)
  | rpcRequestFailed (message : String)
  | nodeTimeout
  | nodeError (message : String)
  | serializationError (message : String)
  | networkError (message : String)
  | base64Error (message : String)
  | xdrError (message : String)
  | invalidContract (message : String)
  | parseError (message : String)
  | localUnavailable
  | executionFailed (message : String)
  | insufficientConsensusProviders (message : String)
  | consensusMismatch (message : String)
deriving DecidableEq

/-- The body of a successful response. -/
inductive Body (α : Type*)
  | unreadable (message : String)
  | error (code : ℤ) (message : String)
  | success (parsed : Except SimulationError α)

/-- What happens to a request: the time for it runs out, it cannot be sent or answered, or there is
a response. -/
inductive Outcome (α : Type*)
  | timeout
  | sendError (isTimeout isConnect : Bool) (message : String)
  | response (status : ℕ) (body : Body α)

/-- The canonical reason phrases of the status codes that are no success. -/
def canonicalReasons : List (ℕ × String) := [
  (100, "Continue"), (101, "Switching Protocols"), (102, "Processing"), (103, "Early Hints"),
  (300, "Multiple Choices"), (301, "Moved Permanently"), (302, "Found"), (303, "See Other"),
  (304, "Not Modified"), (305, "Use Proxy"), (307, "Temporary Redirect"),
  (308, "Permanent Redirect"), (400, "Bad Request"), (401, "Unauthorized"),
  (402, "Payment Required"), (403, "Forbidden"), (404, "Not Found"), (405, "Method Not Allowed"),
  (406, "Not Acceptable"), (407, "Proxy Authentication Required"), (408, "Request Timeout"),
  (409, "Conflict"), (410, "Gone"), (411, "Length Required"), (412, "Precondition Failed"),
  (413, "Payload Too Large"), (414, "URI Too Long"), (415, "Unsupported Media Type"),
  (416, "Range Not Satisfiable"), (417, "Expectation Failed"), (418, "I'm a teapot"),
  (421, "Misdirected Request"), (422, "Unprocessable Entity"), (423, "Locked"),
  (424, "Failed Dependency"), (425, "Too Early"), (426, "Upgrade Required"),
  (428, "Precondition Required"), (429, "Too Many Requests"),
  (431, "Request Header Fields Too Large"), (451, "Unavailable For Legal Reasons"),
  (500, "Internal Server Error"), (501, "Not Implemented"), (502, "Bad Gateway"),
  (503, "Service Unavailable"), (504, "Gateway Timeout"), (505, "HTTP Version Not Supported"),
  (506, "Variant Also Negotiates"), (507, "Insufficient Storage"), (508, "Loop Detected"),
  (510, "Not Extended"), (511, "Network Authentication Required")]

def reasonPhrase (status : ℕ) : String :=
  (canonicalReasons.lookup status).getD "<unknown status code>"

/-- How a status code is displayed: the number, and the reason phrase. -/
def displayStatus (status : ℕ) : String := toString status ++ " " ++ reasonPhrase status

def isSuccess (status : ℕ) : Bool := 200 ≤ status ∧ status < 300

/-- The error of a response with a status that is no success. -/
def httpError (status : ℕ) : SimulationError :=
  .rpcRequestFailed ("HTTP error: " ++ displayStatus status)

/-- The error of a JSON-RPC error response. -/
def rpcError (code : ℤ) (message : String) : SimulationError :=
  if code = -32600 then .nodeError "Invalid request format"
  else if code = -32601 then .rpcRequestFailed "Method not found"
  else if code = -32602 then .nodeError ("Invalid parameters: " ++ message)
  else if code = -32603 then .rpcRequestFailed ("Internal error: " ++ message)
  else .rpcRequestFailed ("RPC error " ++ toString code ++ ": " ++ message)

variable {α : Type*}

/-- The result of one request. -/
def simulateTransactionSingle : Outcome α → Except SimulationError α
  | .timeout => .error .nodeTimeout
  | .sendError isTimeout isConnect message =>
    if isTimeout then .error .nodeTimeout
    else if isConnect then .error (.networkError message)
    else .error (.rpcRequestFailed ("Network error: " ++ message))
  | .response status body =>
    if isSuccess status then
      match body with
      | .unreadable message =>
        .error (.rpcRequestFailed ("Failed to parse response: " ++ message))
      | .error code message => .error (rpcError code message)
      | .success parsed => parsed
    else .error (httpError status)

/-! ## The loop over the providers -/

/-- A response of the provider, whatever it is, is a sample of its latency. -/
def recordSample : SimulationError → Bool
  | .nodeTimeout => false
  | .networkError _ => false
  | _ => true

/-- The number that the last word of a text is, if it is one. -/
def lastNumber (msg : List Char) : Option ℕ :=
  (Text.splitWhitespace msg).getLast?.bind (Text.parseUnsigned (2 ^ 16))

/-- Whether the next provider is tried. -/
def shouldRetry : SimulationError → Bool
  | .nodeTimeout => true
  | .networkError _ => true
  | .rpcRequestFailed msg =>
    if "HTTP error:".toList.isPrefixOf msg.toList then
      ((lastNumber msg.toList).map isRetryableStatus).getD false
    else false
  | _ => false

/-- The request to one provider: when it is started and when it has ended, what happens to it, how
long it takes, and whether the registry is being written when the sample is recorded. -/
structure Exchange (α : Type*) where
  startedAt : ℕ
  endedAt : ℕ
  outcome : Outcome α
  rttUs : ℕ
  locked : Bool

/-- Try the providers in order. -/
def tryProviders (maxTotalRetryDurationSecs retryDeadline : ℕ)
    (exchange : RpcProvider → Exchange α) :
    List RpcProvider → Option SimulationError → ProviderRegistry →
      Except SimulationError α × ProviderRegistry
  | [], lastError, r =>
    (.error (lastError.getD (.rpcRequestFailed "All providers exhausted")), r)
  | provider :: providers, _, r =>
    let x := exchange provider
    if retryDeadline < x.startedAt then
      (.error (.rpcRequestFailed ("Exceeded maximum retry duration of " ++
        toString maxTotalRetryDurationSecs ++ " seconds")), r)
    else
      match simulateTransactionSingle x.outcome with
      | .ok result =>
        (.ok result, (r.recordRtt provider.url x.rttUs x.locked).reportSuccess provider.url)
      | .error e =>
        let r := if recordSample e then r.recordRtt provider.url x.rttUs x.locked else r
        let r := r.reportFailure provider.url x.endedAt
        if shouldRetry e then
          tryProviders maxTotalRetryDurationSecs retryDeadline exchange providers (some e) r
        else (.error e, r)

/-- Try the providers that are available at `now`, for at most a given duration from then. -/
def simulateTransactionWithFailover (maxTotalRetryDurationSecs : ℕ) (r : ProviderRegistry)
    (now : ℕ) (exchange : RpcProvider → Exchange α) :
    Except SimulationError α × ProviderRegistry :=
  let (providers, r) := r.providersByLatency now
  if providers.isEmpty then
    (.error (.rpcRequestFailed
      "All RPC providers are unavailable (circuit breaker tripped)"), r)
  else
    tryProviders maxTotalRetryDurationSecs (now + maxTotalRetryDurationSecs * 1000) exchange
      providers none r

/-! ## Which failures are retried -/

/-- A timeout, a connection error, and the statuses 429 and 5xx. -/
def Outcome.Retryable : Outcome α → Prop
  | .timeout => True
  | .sendError isTimeout isConnect _ => isTimeout = true ∨ isConnect = true
  | .response status _ => status = 429 ∨ 500 ≤ status ∧ status < 600

/-- The provider has answered, with whatever status. -/
def Outcome.IsResponse : Outcome α → Prop
  | .response _ _ => True
  | _ => False

/-- The text ends with a word that has a letter or another sign in it. -/
def EndsInWord (s : List Char) : Prop :=
  ∃ w, (Text.splitWhitespace s).getLast? = some w ∧ ∃ d ∈ w, d.isDigit = false ∧ d ≠ '+'

theorem endsInWord_of_any {s : List Char}
    (h : ((Text.splitWhitespace s).getLast?.any fun w =>
      w.any fun d => !d.isDigit && d ≠ '+') = true) : EndsInWord s := by
  cases hw : (Text.splitWhitespace s).getLast? with
  | none => simp [hw] at h
  | some w =>
    rw [hw, Option.any_some] at h
    obtain ⟨d, hd, hnot⟩ := List.any_eq_true.mp h
    exact ⟨w, hw, d, hd, by simpa using hnot⟩

/-- No reason phrase ends in a number. -/
theorem endsInWord_reasonPhrase (status : ℕ) : EndsInWord (reasonPhrase status).toList := by
  have htable : ∀ p ∈ canonicalReasons, ((Text.splitWhitespace p.2.toList).getLast?.any fun w =>
      w.any fun d => !d.isDigit && d ≠ '+') = true := by
    decide +kernel
  unfold reasonPhrase
  cases hlookup : canonicalReasons.lookup status with
  | none => exact endsInWord_of_any (by decide +kernel)
  | some phrase =>
    obtain ⟨l₁, l₂, heq, -⟩ := List.lookup_eq_some_iff.mp hlookup
    exact endsInWord_of_any (htable (status, phrase) (by rw [heq]; simp))

/-- The last word of a text that ends in a word is no number. -/
theorem lastNumber_eq_none (s : List Char) {t : List Char} {c : Char}
    (hc : Text.isWhitespace c = true) (ht : EndsInWord t) : lastNumber (s ++ c :: t) = none := by
  obtain ⟨w, hw, hword⟩ := ht
  rw [lastNumber, Text.getLast?_splitWhitespace_append s hc hw]
  exact Text.parseUnsigned_eq_none hword

/-- **No HTTP status is retried**: the text of the error ends in its reason phrase, and not in the
status. -/
theorem shouldRetry_httpError (status : ℕ) : shouldRetry (httpError status) = false := by
  have hmsg : ("HTTP error: " ++ displayStatus status).toList =
      ("HTTP error: ".toList ++ (toString status).toList) ++
        ' ' :: (reasonPhrase status).toList := by
    simp [displayStatus]
  have hnone : lastNumber ("HTTP error: " ++ displayStatus status).toList = none := by
    rw [hmsg]
    exact lastNumber_eq_none _ (by decide) (endsInWord_reasonPhrase status)
  simp only [shouldRetry, httpError, hnone]
  split <;> rfl

/-- A failure that another provider may make good is retried exactly when it is no response. -/
theorem shouldRetry_iff {o : Outcome α} (h : o.Retryable) :
    ∃ e, simulateTransactionSingle o = .error e ∧ (shouldRetry e = true ↔ ¬ o.IsResponse) := by
  cases o with
  | timeout => exact ⟨.nodeTimeout, rfl, iff_of_true rfl id⟩
  | sendError isTimeout isConnect message =>
    by_cases ht : isTimeout = true
    · exact ⟨.nodeTimeout, by simp [simulateTransactionSingle, ht], iff_of_true rfl id⟩
    · have hc : isConnect = true := h.resolve_left ht
      exact ⟨.networkError message, by simp [simulateTransactionSingle, ht, hc],
        iff_of_true rfl id⟩
  | response status body =>
    have hfail : isSuccess status = false := by
      simp only [isSuccess, decide_eq_false_iff_not]
      rcases h with h | h <;> omega
    refine ⟨httpError status, by simp [simulateTransactionSingle, hfail], ?_⟩
    rw [shouldRetry_httpError]
    exact iff_of_false (by simp) (fun h => h trivial)

/-- **The loop** over providers that fail retryably before one that succeeds returns its result
exactly when none of the failures is a response. -/
theorem tryProviders_ok_iff {maxSecs deadline : ℕ} {exchange : RpcProvider → Exchange α}
    {before after : List RpcProvider} {p : RpcProvider} {result : α}
    {lastError : Option SimulationError} {r : ProviderRegistry}
    (hbefore : ∀ q ∈ before, (exchange q).outcome.Retryable)
    (hp : simulateTransactionSingle (exchange p).outcome = .ok result)
    (htime : ∀ q ∈ before ++ [p], (exchange q).startedAt ≤ deadline) :
    (tryProviders maxSecs deadline exchange (before ++ p :: after) lastError r).1 = .ok result ↔
      ∀ q ∈ before, ¬ (exchange q).outcome.IsResponse := by
  induction before generalizing lastError r with
  | nil =>
    have hle := htime p (by simp)
    simp [tryProviders, Nat.not_lt.mpr hle, hp]
  | cons q before ih =>
    have hle := htime q (by simp)
    obtain ⟨e, he, hretry⟩ := shouldRetry_iff (hbefore q (by simp))
    rw [List.cons_append, tryProviders]
    simp only [Nat.not_lt.mpr hle, if_false, he, List.mem_cons, forall_eq_or_imp]
    by_cases hresp : (exchange q).outcome.IsResponse
    · -- the first HTTP status ends the loop
      have hstop : ¬ shouldRetry e = true := fun h => hretry.mp h hresp
      simp [hstop, hresp]
    · have hgo : shouldRetry e = true := hretry.mpr hresp
      simp only [hgo, if_true, hresp, not_false_eq_true, true_and]
      exact ih (fun q hq => hbefore q (List.mem_cons_of_mem _ hq))
        (fun q hq => htime q (List.mem_cons_of_mem _ hq))

/-- **Failover.** The providers offered before `p` fail in ways that another provider may make good,
`p` succeeds, and all are tried in time. Then the result is that of `p` exactly when none of the
failures is an HTTP status. -/
theorem failover_iff (maxSecs : ℕ) (r : ProviderRegistry) (now : ℕ)
    (exchange : RpcProvider → Exchange α) (before after : List RpcProvider) (p : RpcProvider)
    (result : α) (hproviders : (r.providersByLatency now).1 = before ++ p :: after)
    (hbefore : ∀ q ∈ before, (exchange q).outcome.Retryable)
    (hp : simulateTransactionSingle (exchange p).outcome = .ok result)
    (htime : ∀ q ∈ before ++ [p], (exchange q).startedAt ≤ now + maxSecs * 1000) :
    (simulateTransactionWithFailover maxSecs r now exchange).1 = .ok result ↔
      ∀ q ∈ before, ¬ (exchange q).outcome.IsResponse := by
  have hne : (before ++ p :: after).isEmpty = false := by simp
  simp only [simulateTransactionWithFailover, hproviders, hne, Bool.false_eq_true, if_false]
  exact tryProviders_ok_iff hbefore hp htime

/-- A provider without credentials. -/
def sampleProvider (url : String) : RpcProvider := ⟨url, url, none, none, none⟩

/-- Two providers that have not been used. -/
def sampleRegistry : ProviderRegistry :=
  .newWithConfig [sampleProvider "a", sampleProvider "b"] ⟨"local", none, []⟩

/-- The first provider fails in some way, and the second answers 7. -/
def sampleExchange (failure : Outcome ℕ) (q : RpcProvider) : Exchange ℕ where
  startedAt := 0
  endedAt := 10
  outcome := if q.url = "a" then failure else .response 200 (.success (.ok 7))
  rttUs := 500
  locked := false

/-- After a timeout the second provider is reached. -/
theorem failover_iff_timeout :
    (simulateTransactionWithFailover 60 sampleRegistry 0 (sampleExchange .timeout)).1 = .ok 7 ↔
      ∀ q ∈ [sampleProvider "a"], ¬ (sampleExchange .timeout q).outcome.IsResponse :=
  failover_iff 60 sampleRegistry 0 (sampleExchange .timeout) [sampleProvider "a"] []
    (sampleProvider "b") 7 rfl (by simp [sampleExchange, sampleProvider, Outcome.Retryable])
    rfl (by simp [sampleExchange])

/-- **An unavailable provider ends the failover**: the first provider answers with status 503, and
the second is never asked. -/
theorem not_failover :
    ¬ ∀ (maxSecs : ℕ) (r : ProviderRegistry) (now : ℕ) (exchange : RpcProvider → Exchange ℕ)
      (before after : List RpcProvider) (p : RpcProvider) (result : ℕ),
      (r.providersByLatency now).1 = before ++ p :: after →
      (∀ q ∈ before, (exchange q).outcome.Retryable) →
      simulateTransactionSingle (exchange p).outcome = .ok result →
      (∀ q ∈ before ++ [p], (exchange q).startedAt ≤ now + maxSecs * 1000) →
      (simulateTransactionWithFailover maxSecs r now exchange).1 = .ok result := by
  intro h
  let failure : Outcome ℕ := .response 503 (.unreadable "")
  have hok := h 60 sampleRegistry 0 (sampleExchange failure) [sampleProvider "a"] []
    (sampleProvider "b") 7 rfl
    (by simp [failure, sampleExchange, sampleProvider, Outcome.Retryable]) rfl
    (by simp [sampleExchange])
  have herr : (simulateTransactionWithFailover 60 sampleRegistry 0 (sampleExchange failure)).1 =
      .error (.rpcRequestFailed "HTTP error: 503 Service Unavailable") := by
    decide +kernel
  rw [hok] at herr
  exact absurd herr (by simp)

end Core.Simulation
