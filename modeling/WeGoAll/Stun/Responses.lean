import WeGoAll.Stun.Grammar
import WeGoAll.Stun.Requests

/-!
# Stun — Responses

The endpoint `on_recv` reports, against the endpoint of the response.

* `reports_iff`: an IPv4 endpoint is reported exactly if the first word with the type of an address
  has it.
* `Faithful`: what that word has to be.
* `reports_prescribed_iff`: exactly then the endpoint reported is the one of the response.
-/

namespace Wga

namespace StunClient

/-- A datagram from `server` makes `on_recv` report success with this IPv4 endpoint to the handler
of the request. -/
def Reports (self : StunClient) (server : IpEndpoint) (request : StunRequest) (m : Memory)
    (size : Nat) (ep : Endpoint) : Prop :=
  ∃ self', onRecv .success server size m self = .ok self' ∧
    self'.posted = self.posted ++ [⟨request.handler, .success, .v4 ep⟩]

theorem found_v4_iff {m : Memory} {ep : Endpoint} : (scan m).found = .ok (some (.v4 ep)) ↔
    ∃ k, FirstAddress m k ∧ ipv4At m (HEADER_SIZE + 4 * k) = some ep := by
  by_cases hfirst : ∃ k, FirstAddress m k
  · obtain ⟨k, hk⟩ := hfirst
    obtain ⟨s, hs, heq⟩ := scan_first hk
    rw [heq]
    refine (hs.ipv4 ep).trans ⟨fun h => ⟨k, hk, h⟩, ?_⟩
    rintro ⟨j, hj, h⟩
    rwa [← hj.unique hk]
  · rw [scan_none (not_exists.mp hfirst)]
    exact iff_of_false nofun fun ⟨k, hk, _⟩ => hfirst ⟨k, hk⟩

section

variable {self : StunClient} {server : IpEndpoint} {request : StunRequest}
  (hlive : self.wasDestroyed = false) (hrequest : self.requests.lookup server = some request)

include hlive hrequest

/-- **The endpoint that is reported** is that of the first word with the type of an address. -/
theorem reports_iff (m : Memory) (size : Nat) (ep : Endpoint) :
    Reports self server request m size ep ↔ Accepted m size ∧
      ∃ k, FirstAddress m k ∧ ipv4At m (HEADER_SIZE + 4 * k) = some ep := by
  have unposted : ∀ x : Posted, self.posted ≠ self.posted ++ [x] := by simp
  by_cases haccepted : Accepted m size
  · rw [Reports, onRecv_accepted hlive hrequest haccepted, ← found_v4_iff,
      and_iff_right haccepted]
    constructor
    · rintro ⟨self', h, hposted⟩
      obtain ⟨found, hfound, h⟩ := bind_ok.mp h
      cases h
      rw [countDown_posted] at hposted
      cases found with
      | none => exact absurd hposted (unposted _)
      | some ep' =>
          have hlast : [Posted.mk request.handler .success ep'] =
              [⟨request.handler, .success, .v4 ep⟩] := List.append_cancel_left hposted
          cases hlast
          exact hfound
    · intro hfound
      rw [hfound]
      exact ⟨_, rfl, countDown_posted _⟩
  · refine iff_of_false ?_ fun h => haccepted h.1
    rintro ⟨self', h, hposted⟩
    rcases onRecv_rejected hlive hrequest haccepted with ⟨error, herror, heq⟩ | heq
    · cases heq.symm.trans h
      rw [countDown_posted] at hposted
      have hlast : [Posted.mk request.handler error .unspecified] =
          [⟨request.handler, .success, .v4 ep⟩] := List.append_cancel_left hposted
      cases hlast
      exact herror rfl
    · cases heq.symm.trans h
      exact unposted _ hposted

/-- The first word with the type of an address, in a datagram with an accepted header. -/
structure Faithful (id : RequestId) (m : Memory) (size : Nat) : Prop where
  /-- If it has an IPv4 endpoint, the datagram is a response to the request and has an address. -/
  genuine : ∀ k ep, FirstAddress m k → ipv4At m (HEADER_SIZE + 4 * k) = some ep →
    ∃ as j a, BindingSuccess id (m.datagram size) as ∧ FirstOf as j a
  /-- In such a response it starts the first attribute of an address.  Or it lies in the value of an
  earlier attribute, and what stands there has the same IPv4 endpoint, or neither has one. -/
  undisguised : ∀ as j a k, BindingSuccess id (m.datagram size) as → FirstOf as j a →
    FirstAddress m k → j ≠ k → ipv4At m (HEADER_SIZE + 4 * k) = a.ipv4

end

end StunClient

/-- The first attribute of an address of a response starts at a word with the type of an address. -/
theorem BindingSuccess.first {m : Memory} {size : Nat} {id : RequestId} {as : List StunAttribute}
    {j : Nat} {a : StunAttribute} (h : BindingSuccess id (m.datagram size) as)
    (ha : FirstOf as j a) : (∃ k, StunClient.FirstAddress m k) ∧
      StunClient.ipv4At m (HEADER_SIZE + 4 * j) = a.ipv4 := by
  obtain ⟨-, body, hbody, hlength, has⟩ := h.body
  obtain ⟨hat, hle⟩ := has.at_first hbody ha
  refine ⟨?_, hat.ipv4⟩
  have haddress : StunClient.IsAddress (m.uint16 (HEADER_SIZE + 4 * j)) := by
    rw [hat.type]
    exact ha.address
  obtain ⟨k, -, hk⟩ := StunClient.FirstFrom.of_address (hlength ▸ hle) haddress
  exact ⟨k, hk⟩

namespace StunClient

/-- **Which responses are parsed as prescribed.**  For every datagram from an endpoint with a
pending request, the IPv4 endpoint reported is the one of the response to this request, and none is
reported where the datagram is no such response, exactly if the header is rejected or the first word
with the type of an address is what it should be. -/
theorem reports_prescribed_iff {self : StunClient} {server : IpEndpoint} {request : StunRequest}
    (hlive : self.wasDestroyed = false) (hrequest : self.requests.lookup server = some request)
    (m : Memory) (size : Nat) :
    (∀ ep, Reports self server request m size ep ↔ Prescribed request.id (m.datagram size) ep) ↔
      (Accepted m size → Faithful request.id m size) := by
  simp only [reports_iff hlive hrequest]
  constructor
  · intro h haccepted
    refine ⟨fun k ep hk hep => ?_, fun as j a k has ha hk _ => ?_⟩
    · obtain ⟨as, j, a, has, ha, -⟩ := (h ep).mp ⟨haccepted, k, hk, hep⟩
      exact ⟨as, j, a, has, ha⟩
    · refine Option.ext fun ep => ⟨fun hep => ?_, fun hep => ?_⟩
      · obtain ⟨as', j', a', has', ha', hep'⟩ := (h ep).mp ⟨haccepted, k, hk, hep⟩
        obtain rfl := has.unique has'
        rwa [ha.unique ha']
      · obtain ⟨-, k', hk', hep'⟩ := (h ep).mpr ⟨as, j, a, has, ha, hep⟩
        rwa [hk.unique hk']
  · intro h ep
    constructor
    · rintro ⟨haccepted, k, hk, hep⟩
      have hfaithful := h haccepted
      obtain ⟨as, j, a, has, ha⟩ := hfaithful.genuine k ep hk hep
      refine ⟨as, j, a, has, ha, ?_⟩
      by_cases hjk : j = k
      · rw [← (has.first ha).2, hjk, hep]
      · rw [← hfaithful.undisguised as j a k has ha hk hjk, hep]
    · rintro ⟨as, j, a, has, ha, hep⟩
      have haccepted := has.body.1
      obtain ⟨⟨k, hk⟩, hat⟩ := has.first ha
      refine ⟨haccepted, k, hk, ?_⟩
      by_cases hjk : j = k
      · rw [← hjk, hat, hep]
      · rw [(h haccepted).undisguised as j a k has ha hk hjk, hep]

/-- The attribute of `mapped`. -/
def xorMapped : StunAttribute :=
  ⟨ATTRIB_XOR_MAPPED_ADDRESS, [0x00, 0x01, 0x21, 0x13, 0x2B, 0x12, 0xA4, 0x40]⟩

theorem mapped_success : BindingSuccess (.replicate 12 0) (mapped.datagram 32) [xorMapped] :=
  ⟨0x00, 0x0C, [0x00, 0x20, 0x00, 0x08] ++ (xorMapped.value ++ ([] ++ [])), [], by decide +kernel,
    by decide, .cons (by decide) (by decide) .nil⟩

theorem mapped_first : FirstAddress mapped 0 :=
  ⟨by decide +kernel, by decide +kernel, nofun⟩

theorem reports_prescribed_iff_mapped :
    Reports asked server ⟨.replicate 12 0, 1, server⟩ mapped 32 ⟨0x0A000002, 1⟩ ∧
      Prescribed (.replicate 12 0) (mapped.datagram 32) ⟨0x0A000002, 1⟩ := by
  have hreports : Reports asked server ⟨.replicate 12 0, 1, server⟩ mapped 32 ⟨0x0A000002, 1⟩ := by
    rw [Reports]
    decide +kernel
  have hlookup : asked.requests.lookup server = some ⟨.replicate 12 0, 1, server⟩ := by
    decide +kernel
  have hfaithful : Faithful (.replicate 12 0) mapped 32 := by
    refine ⟨fun _ _ _ _ => ⟨_, 0, _, mapped_success, .head (.inr rfl)⟩, ?_⟩
    intro as j a k has ha hk hjk
    obtain rfl := mapped_success.unique has
    cases ha with
    | head => exact absurd (mapped_first.unique hk) hjk
    | tail hx => exact absurd (.inr rfl) hx
  exact ⟨hreports,
    ((reports_prescribed_iff rfl hlookup mapped 32).mpr (fun _ => hfaithful) _).mp hreports⟩

/-- The response of `mapped` with the transaction id of another request. -/
def foreign : Memory := fun i => if 8 ≤ i ∧ i < 20 then 0xFF else mapped i

/-- It is reported all the same. -/
theorem foreign_reported :
    Reports asked server ⟨.replicate 12 0, 1, server⟩ foreign 32 ⟨0x0A000002, 1⟩ ∧
      ¬ Prescribed (.replicate 12 0) (foreign.datagram 32) ⟨0x0A000002, 1⟩ := by
  refine ⟨?_, ?_⟩
  · rw [Reports]
    decide +kernel
  · rintro ⟨as, k, a, ⟨l₀, l₁, body, rest, heq, -, -⟩, -, -⟩
    have hid : (foreign.datagram 32)[8]? = some 0 := by
      rw [heq]
      rfl
    exact absurd hid (by decide +kernel)

end StunClient

end Wga
