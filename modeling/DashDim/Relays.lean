import DashDim.Hen.Base
import DashDim.Octopus.Base
import DashDim.Tpproxy.Proxy

/-!
# Relays conserve bytes

The proxies write what they relay in the same way: an endpoint is given bytes, hands
them to `send()` at once or keeps them, and sends what it keeps later. The write paths
are those of the servers of the multipath proxy, of the transparent proxy, of the hands
and dispatchers of the octopus proxy, and of the hen proxy.

* `relays_conserve_bytes`: whatever `send()` answers, what it took, followed by what
  waits, is what was passed in, in the order of the calls.
-/

namespace DashDim

/-- A call on an endpoint: to send what waits, or with bytes to send; and what the calls of
    `send()` that it makes are answered. -/
inductive RelayCall (φ δ : Type)
  | flush (answers : φ)
  | pass (answers : δ) (pv : Bytes)

/-- The bytes that are passed in. -/
def RelayCall.passed {φ δ : Type} : RelayCall φ δ → Bytes
  | flush _ => []
  | pass _ pv => pv

/-! ## The write paths -/

namespace SocketBase

/-- The two calls that write, of a socket. -/
def relay (s : SocketBase) : RelayCall (List SendAnswer) SendCall → SocketBase
  | .flush answers => s.flushBuffer answers
  | .pass call pv => s.writeDataToFd call pv

theorem relay_content (calls : List (RelayCall (List SendAnswer) SendCall)) {s : SocketBase}
    (hfd : 0 < s.fd) :
    (calls.foldl relay s).content = s.content ++ calls.flatMap RelayCall.passed := by
  induction calls generalizing s with
  | nil => rw [List.foldl_nil, List.flatMap_nil, List.append_nil]
  | cons call calls ih =>
    rw [List.foldl_cons, List.flatMap_cons, ← List.append_assoc]
    cases call with
    | flush answers =>
      have hcontent := s.flushBuffer_content answers
      rw [relay, ih (by rw [flushBuffer_fd]; exact hfd), hcontent, RelayCall.passed,
        List.append_nil]
    | pass call pv =>
      have hcontent := writeDataToFd_content hfd call pv
      rw [relay, ih (by rw [writeDataToFd_fd]; exact hfd), hcontent, RelayCall.passed]

end SocketBase

namespace TpProxy.TpProxyBase

/-- The two calls that write, of an end of the proxy. -/
def relay (e : TpProxyBase) :
    RelayCall (List SendAnswer) SendCall → Except CheckFailure TpProxyBase
  | .flush answers => e.flushBuffer answers
  | .pass call pv => e.sendData call pv

theorem relay_content {e : TpProxyBase} (hopen : e.fdOpen = true)
    (call : RelayCall (List SendAnswer) SendCall) : ∃ e', e.relay call = .ok e' ∧
      e'.fdOpen = true ∧ e'.content = e.content ++ call.passed := by
  cases call with
  | flush answers =>
    obtain ⟨e', hcall⟩ := flushBuffer_isOk hopen answers
    obtain ⟨hopen', hcontent⟩ := flushBuffer_content hcall
    refine ⟨e', hcall, hopen'.trans hopen, ?_⟩
    rw [hcontent, RelayCall.passed, List.append_nil]
  | pass call pv =>
    obtain ⟨e', hcall⟩ := e.sendData_isOk call pv
    exact ⟨e', hcall, sendData_content hopen hcall⟩

end TpProxy.TpProxyBase

namespace Octopus.OctopusBase

/-- The two calls that write, of `OctopusBase`. -/
def relay (b : OctopusBase) : RelayCall (List ℕ) (List ℕ) → Except CheckFailure OctopusBase
  | .flush answers => (b.flushBuffer answers).map Prod.fst
  | .pass answers pv => (b.sink answers pv).map Prod.fst

theorem relay_content {b : OctopusBase} (hopen : b.fdOpen = true)
    (call : RelayCall (List ℕ) (List ℕ)) : ∃ b', b.relay call = .ok b' ∧
      b'.fdOpen = true ∧ b'.content = b.content ++ call.passed := by
  cases call with
  | flush answers =>
    obtain ⟨b', answers', hcall, hopen', hcontent⟩ := flushBuffer_content hopen answers
    refine ⟨b', by rw [relay, hcall]; rfl, hopen', ?_⟩
    rw [hcontent, RelayCall.passed, List.append_nil]
  | pass answers pv =>
    obtain ⟨b', answers', hcall, hopen', hcontent⟩ := sink_content hopen answers pv
    exact ⟨b', by rw [relay, hcall]; rfl, hopen', hcontent⟩

end Octopus.OctopusBase

namespace Hen.HenBase

/-- The two calls that write, of `HenBase`. -/
def relay (b : HenBase) : RelayCall (List ℕ) Unit → Except CheckFailure HenBase
  | .flush answers => b.flushBuffer answers
  | .pass _ pv => .ok (b.sink pv)

theorem relay_content {b : HenBase} (hopen : b.fdOpen = true) (call : RelayCall (List ℕ) Unit) :
    ∃ b', b.relay call = .ok b' ∧ b'.fdOpen = true ∧ b'.content = b.content ++ call.passed := by
  cases call with
  | flush answers =>
    obtain ⟨b', hcall, hopen', hcontent⟩ := flushBuffer_content hopen answers
    refine ⟨b', hcall, hopen', ?_⟩
    rw [hcontent, RelayCall.passed, List.append_nil]
  | pass _ pv => exact ⟨b.sink pv, rfl, sink_content hopen pv⟩

end Hen.HenBase

/-! ## Conservation -/

open RelayCall

/-- Whatever calls are made of an endpoint whose descriptor is open, and whatever `send()`
    answers, no check fails, and what `send()` took, followed by what waits, is what there
    was, followed by all that was passed in. -/
theorem relays_conserve_bytes :
    (∀ s : SocketBase, 0 < s.fd → ∀ calls : List (RelayCall (List SendAnswer) SendCall),
      (calls.foldl SocketBase.relay s).content = s.content ++ calls.flatMap passed) ∧
    (∀ e : TpProxy.TpProxyBase, e.fdOpen = true →
      ∀ calls : List (RelayCall (List SendAnswer) SendCall), ∃ e',
      calls.foldlM TpProxy.TpProxyBase.relay e = .ok e' ∧
      e'.content = e.content ++ calls.flatMap passed) ∧
    (∀ b : Octopus.OctopusBase, b.fdOpen = true →
      ∀ calls : List (RelayCall (List ℕ) (List ℕ)), ∃ b',
      calls.foldlM Octopus.OctopusBase.relay b = .ok b' ∧
      b'.content = b.content ++ calls.flatMap passed) ∧
    (∀ b : Hen.HenBase, b.fdOpen = true → ∀ calls : List (RelayCall (List ℕ) Unit), ∃ b',
      calls.foldlM Hen.HenBase.relay b = .ok b' ∧
      b'.content = b.content ++ calls.flatMap passed) := by
  refine ⟨fun s hfd calls => SocketBase.relay_content calls hfd, ?_, ?_, ?_⟩
  · intro e hopen calls
    obtain ⟨e', hcalls, -, hcontent⟩ := content_foldlM
      (P := fun e : TpProxy.TpProxyBase => e.fdOpen = true)
      (fun e call hopen => TpProxy.TpProxyBase.relay_content hopen call) calls hopen
    exact ⟨e', hcalls, hcontent⟩
  · intro b hopen calls
    obtain ⟨b', hcalls, -, hcontent⟩ := content_foldlM
      (P := fun b : Octopus.OctopusBase => b.fdOpen = true)
      (fun b call hopen => Octopus.OctopusBase.relay_content hopen call) calls hopen
    exact ⟨b', hcalls, hcontent⟩
  · intro b hopen calls
    obtain ⟨b', hcalls, -, hcontent⟩ := content_foldlM (P := fun b : Hen.HenBase => b.fdOpen = true)
      (fun b call hopen => Hen.HenBase.relay_content hopen call) calls hopen
    exact ⟨b', hcalls, hcontent⟩

/-- Endpoints that keep a part of what they are given, and send it later. -/
theorem relays_partial_sends :
    ([.pass ⟨[], 1⟩ [1, 2, 3, 4], .flush [.sent 2], .pass ⟨[.noBudget], 0⟩ [5]].foldl
      SocketBase.relay (.new 5)).content = [1, 2, 3, 4, 5] ∧
    (∃ e', [.pass ⟨[], 1⟩ [1, 2, 3, 4], .flush [.sent 2]].foldlM TpProxy.TpProxyBase.relay
      { status := .tcpConnected } = .ok e' ∧ e'.content = [1, 2, 3, 4]) ∧
    (∃ b', [.pass [1, 2] [1, 2, 3, 4], .flush [0]].foldlM Octopus.OctopusBase.relay {} = .ok b' ∧
      b'.content = [1, 2, 3, 4]) ∧
    ∃ b', [.pass () [1, 2, 3, 4], .flush [2], .pass () [5]].foldlM Hen.HenBase.relay {} = .ok b' ∧
      b'.content = [1, 2, 3, 4, 5] :=
  ⟨relays_conserve_bytes.1 (.new 5) (by decide) _,
    relays_conserve_bytes.2.1 { status := .tcpConnected } rfl _,
    relays_conserve_bytes.2.2.1 {} rfl [.pass [1, 2] [1, 2, 3, 4], .flush [0]],
    relays_conserve_bytes.2.2.2 {} rfl [.pass () [1, 2, 3, 4], .flush [2], .pass () [5]]⟩

end DashDim
