import DashDim.Lib.Outcome
import Mathlib.Data.List.AList

/-!
# The registry of sessions

`TpServerBackend` of `tpproxy/mpproxy_server.cc` finds the server of a session by two
numbers, in a map of maps. A server puts itself in when it starts to connect, and takes
itself out when it posts its deletion; inner maps without a server are taken out too.

* `find_regsiterSink`, `find_unRegsiterSink`: what the two do to what is found;
* `nonempty_regsiterSink`, `nonempty_unRegsiterSink`: inner maps stay non-empty.
-/

namespace DashDim

namespace Mpproxy

/-- The checks that may fail, and the use of an object that is deleted. -/
inductive Fault
  | writeBuffer
  | readBuffer
  | server
  | fd
  | packet
  | registry
  | addresses
  | deleted
  deriving DecidableEq, Repr

/-- The map from session ids to servers. -/
abbrev SessionIdServerMap := AList fun _ : UInt64 => ℕ

/-- `uuid_sessions_` -/
abbrev UuidSessions := AList fun _ : UInt64 => SessionIdServerMap

namespace UuidSessions

/-- `TpServerBackend::Find` -/
def find (uuid sid : UInt64) (m : UuidSessions) : Option ℕ :=
  match m.lookup uuid with
  | none => none
  | some sessions => sessions.lookup sid

/-- `TpServerBackend::RegsiterSink` -/
def regsiterSink (server : ℕ) (uuid ssid : UInt64) (m : UuidSessions) :
    Except Fault UuidSessions :=
  match m.lookup uuid with
  | some session =>
    match session.lookup ssid with
    | none => .ok (m.insert uuid (session.insert ssid server))
    | some _ => .error .registry
  | none => .ok (m.insert uuid ((∅ : SessionIdServerMap).insert ssid server))

/-- `TpServerBackend::UnRegsiterSink` -/
def unRegsiterSink (uuid ssid : UInt64) (m : UuidSessions) : Except Fault UuidSessions :=
  match m.lookup uuid with
  | some session =>
    match session.lookup ssid with
    | some _ =>
      let session := session.erase ssid
      if session.keys = [] then .ok (m.erase uuid) else .ok (m.insert uuid session)
    | none => .error .registry
  | none => .error .registry

/-- No inner map is empty. -/
def Nonempty (m : UuidSessions) : Prop := ∀ uuid session, m.lookup uuid = some session →
  ∃ sid server, session.lookup sid = some server

variable {m m' : UuidSessions} {server : ℕ} {uuid sid uuid' sid' : UInt64}

/-- Registering fails exactly for a key that is there. -/
theorem regsiterSink_eq_error {e : Fault} (h : m.regsiterSink server uuid sid = .error e) :
    ∃ s, m.find uuid sid = some s := by
  rw [regsiterSink] at h
  rw [find]
  split at h
  · next session hlookup =>
    split at h
    · cases h
    · next s hsid =>
      rw [hlookup]
      exact ⟨s, hsid⟩
  · cases h

/-- Taking out fails exactly for a key that is not there. -/
theorem unRegsiterSink_eq_error {e : Fault} (h : m.unRegsiterSink uuid sid = .error e) :
    e = .registry ∧ m.find uuid sid = none := by
  rw [unRegsiterSink] at h
  rw [find]
  split at h
  · next session hlookup =>
    rw [hlookup]
    split at h
    · dsimp only at h
      split_ifs at h
    · next hsid =>
      cases h
      exact ⟨rfl, hsid⟩
  · next hlookup =>
    cases h
    rw [hlookup]
    exact ⟨rfl, rfl⟩

/-- Taking out a key that is not there fails. -/
theorem unRegsiterSink_of_find_eq_none (h : m.find uuid sid = none) :
    m.unRegsiterSink uuid sid = .error .registry := by
  rw [find] at h
  rw [unRegsiterSink]
  split at h
  · next hlookup => rw [hlookup]
  · next session hlookup =>
    rw [hlookup]
    dsimp only
    rw [h]

/-- A key that is not there can be registered. -/
theorem regsiterSink_of_find_eq_none (server : ℕ) (h : m.find uuid sid = none) :
    ∃ m', m.regsiterSink server uuid sid = .ok m' := by
  cases hreg : m.regsiterSink server uuid sid with
  | ok m' => exact ⟨m', rfl⟩
  | error e =>
    obtain ⟨s, hs⟩ := regsiterSink_eq_error hreg
    rw [h] at hs
    cases hs

/-- What is found when a server has registered. -/
theorem find_regsiterSink (h : m.regsiterSink server uuid sid = .ok m') :
    m'.find uuid' sid' =
      if uuid' = uuid ∧ sid' = sid then some server else m.find uuid' sid' := by
  have hinner : ∀ session : SessionIdServerMap, m' = m.insert uuid (session.insert sid server) →
      (∀ sid', sid' ≠ sid → session.lookup sid' = m.find uuid sid') →
      m'.find uuid' sid' =
        if uuid' = uuid ∧ sid' = sid then some server else m.find uuid' sid' := by
    rintro session rfl hsession
    rw [find]
    by_cases hu : uuid' = uuid
    · subst hu
      rw [AList.lookup_insert]
      dsimp only
      by_cases hs : sid' = sid
      · subst hs
        rw [AList.lookup_insert, if_pos ⟨rfl, rfl⟩]
      · rw [AList.lookup_insert_ne hs, if_neg fun hand => hs hand.2, hsession sid' hs]
    · rw [AList.lookup_insert_ne hu, if_neg fun hand => hu hand.1]
      rfl
  rw [regsiterSink] at h
  split at h
  · next session hlookup =>
    split at h
    · cases h
      refine hinner session rfl fun sid' _ => ?_
      rw [find, hlookup]
    · cases h
  · next hlookup =>
    cases h
    refine hinner ∅ rfl fun sid' _ => ?_
    rw [find, hlookup, AList.lookup_empty]

/-- What is found when a server has taken itself out. -/
theorem find_unRegsiterSink (h : m.unRegsiterSink uuid sid = .ok m') :
    m'.find uuid' sid' = if uuid' = uuid ∧ sid' = sid then none else m.find uuid' sid' := by
  rw [unRegsiterSink] at h
  split at h
  · next session hlookup =>
    split at h
    · have hsame : m.find uuid sid' = session.lookup sid' := by rw [find, hlookup]
      dsimp only at h
      split_ifs at h with hempty
      · cases h
        rw [find]
        by_cases hu : uuid' = uuid
        · subst hu
          rw [AList.lookup_erase]
          dsimp only
          by_cases hs : sid' = sid
          · rw [if_pos ⟨rfl, hs⟩]
          · -- the session was the only one
            have hnone : (session.erase sid).lookup sid' = none := by
              rw [AList.lookup_eq_none, AList.mem_keys, hempty]
              exact List.not_mem_nil
            rw [if_neg fun hand => hs hand.2, hsame, ← AList.lookup_erase_ne hs, hnone]
        · rw [AList.lookup_erase_ne hu, if_neg fun hand => hu hand.1]
          rfl
      · -- other sessions are left under the same number
        cases h
        rw [find]
        by_cases hu : uuid' = uuid
        · subst hu
          rw [AList.lookup_insert]
          dsimp only
          by_cases hs : sid' = sid
          · subst hs
            rw [AList.lookup_erase, if_pos ⟨rfl, rfl⟩]
          · rw [AList.lookup_erase_ne hs, if_neg fun hand => hs hand.2, hsame]
        · rw [AList.lookup_insert_ne hu, if_neg fun hand => hu hand.1]
          rfl
    · cases h
  · cases h

theorem nonempty_empty : Nonempty ∅ := by
  intro uuid session hlookup
  rw [AList.lookup_empty] at hlookup
  cases hlookup

theorem nonempty_regsiterSink (hm : m.Nonempty) (h : m.regsiterSink server uuid sid = .ok m') :
    m'.Nonempty := by
  have hinner : ∀ session : SessionIdServerMap,
      Nonempty (m.insert uuid (session.insert sid server)) := by
    intro session uuid' session' hlookup
    by_cases hu : uuid' = uuid
    · subst hu
      rw [AList.lookup_insert] at hlookup
      cases hlookup
      exact ⟨sid, server, AList.lookup_insert _⟩
    · rw [AList.lookup_insert_ne hu] at hlookup
      exact hm uuid' session' hlookup
  rw [regsiterSink] at h
  split at h
  · split at h
    · cases h
      exact hinner _
    · cases h
  · cases h
    exact hinner ∅

theorem nonempty_unRegsiterSink (hm : m.Nonempty) (h : m.unRegsiterSink uuid sid = .ok m') :
    m'.Nonempty := by
  rw [unRegsiterSink] at h
  split at h
  · next session hlookup =>
    split at h
    · dsimp only at h
      split_ifs at h with hempty
      · cases h
        intro uuid' session' hlookup'
        by_cases hu : uuid' = uuid
        · subst hu
          rw [AList.lookup_erase] at hlookup'
          cases hlookup'
        · rw [AList.lookup_erase_ne hu] at hlookup'
          exact hm uuid' session' hlookup'
      · -- a session is left, as the code has looked
        cases h
        intro uuid' session' hlookup'
        by_cases hu : uuid' = uuid
        · subst hu
          rw [AList.lookup_insert] at hlookup'
          cases hlookup'
          obtain ⟨sid', hsid'⟩ := List.exists_mem_of_ne_nil _ hempty
          obtain ⟨server, hserver⟩ := Option.isSome_iff_exists.1
            (AList.lookup_isSome.2 (AList.mem_keys.2 hsid'))
          exact ⟨sid', server, hserver⟩
        · rw [AList.lookup_insert_ne hu] at hlookup'
          exact hm uuid' session' hlookup'
    · cases h
  · cases h

end UuidSessions

end Mpproxy

end DashDim
