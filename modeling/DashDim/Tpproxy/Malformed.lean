import DashDim.Codec.Failure
import DashDim.Tpproxy.Header
import DashDim.Tpproxy.Reading

/-!
# Messages for a session that are not complete

`TcpConnectionLeft::ParseMessage` reads a session, and does not look at whether it could: a
number that is not there is zero. So a message that is cut off makes a session, or joins one.

* `completeMeta_iff`: the reads tell whether a message is complete;
* `unaffected_iff`: a message that is not complete changes nothing exactly if it is ignored
  for another reason.
-/

namespace DashDim

namespace Mpproxy

/-! ## Complete messages -/

/-- A message for a session: its type, two numbers in any of their encodings, and the address and
    port, of 4 and 2 bytes. -/
def CompleteMeta (data : Bytes) : Prop :=
  ∃ (uuid sid : ℕ) (encUuid encSid ip port rest : Bytes),
    data = proxyMessageMeta :: (encUuid ++ (encSid ++ (ip ++ (port ++ rest)))) ∧
    varInt62Of encUuid = some (uuid, encUuid.length) ∧
    varInt62Of encSid = some (sid, encSid.length) ∧ ip.length = 4 ∧ port.length = 2

/-- The number at the start of a string is that of its encoding. -/
theorem varInt62Of_take {bs : Bytes} {n width : ℕ} (h : varInt62Of bs = some (n, width)) :
    varInt62Of (bs.take width) = some (n, width) := by
  cases bs with
  | nil => cases h
  | cons b bs =>
    rw [varInt62Of] at h
    split_ifs at h with hw
    obtain ⟨hvalue, rfl⟩ := Prod.mk.inj (Option.some.inj h)
    obtain ⟨k, hk⟩ := Nat.exists_eq_add_one.2 (Nat.two_pow_pos (b.toNat / 64))
    have hlen : (bs.take k).length = k := List.length_take_of_le (by omega)
    have htake : (b :: bs.take k).take (k + 1) = b :: bs.take k := by
      rw [List.take_succ_cons, List.take_take, Nat.min_self]
    rw [hk, List.take_succ_cons] at hvalue ⊢
    rw [varInt62Of, hk]
    rw [if_pos (by omega), htake, hvalue]

namespace World

/-- The address and port can be read if there are 6 bytes. -/
theorem readOrigin_success (r : DataReader) :
    (match DataReader.readUInt32 r with
      | (none, _) => false
      | (some _, r') => (DataReader.readUInt16 r').1.isSome) = decide (6 ≤ r.bytesRemaining) := by
  obtain ⟨hsome, hafter⟩ := DataReader.readUInt_eq (r := r) (n := 4) (by decide)
  by_cases hfour : 4 ≤ r.bytesRemaining
  · rw [decide_eq_true hfour] at hsome
    rw [if_pos hfour] at hafter
    obtain ⟨v, hv⟩ := Option.isSome_iff_exists.1 hsome
    have hread : DataReader.readUInt32 r = (some (UInt32.ofNat v), r.advancePos 4) :=
      Prod.ext (congrArg (Option.map UInt32.ofNat) hv) hafter
    have hport := (DataReader.readUInt_eq (r := r.advancePos 4) (n := 2) (by decide)).1
    have hleft : (r.advancePos 4).bytesRemaining = r.bytesRemaining - 4 := Nat.sub_add_eq ..
    rw [hread]
    dsimp only
    rw [DataReader.readUInt16, Read.map, Option.isSome_map, hport, hleft]
    exact decide_eq_decide.2 (by omega)
  · rw [decide_eq_false hfour] at hsome
    have hnone := Option.not_isSome_iff_eq_none.1 (Bool.eq_false_iff.1 hsome)
    have hread : DataReader.readUInt32 r = (none, (DataReader.readUInt32 r).2) :=
      Prod.ext (congrArg (Option.map UInt32.ofNat) hnone) rfl
    rw [hread]
    exact (decide_eq_false (by omega)).symm

/-- The reads after the type, by what is unread. -/
theorem readMeta_success_iff (b : UInt8) (bs : Bytes) : (readMeta (b :: bs)).2.2.2 = true ↔
    ∃ p q, varInt62Of bs = some p ∧ varInt62Of (bs.drop p.2) = some q ∧
      6 ≤ (bs.drop (p.2 + q.2)).length := by
  obtain ⟨r, hr⟩ : ∃ r, (DataReader.readUInt8 (DataReader.new (b :: bs))).2 = r := ⟨_, rfl⟩
  have hunread : r.unread = bs := by
    rw [← hr]
    exact congrArg (List.drop 1) (List.take_length (l := b :: bs))
  have hwell : r.len ≤ r.data.length := by
    rw [← hr]
    exact le_rfl
  have huuid := DataReader.readVarInt62_eq hwell
  rw [hunread] at huuid
  -- each read sees what the one before it has left
  rw [readMeta, hr, huuid]
  cases hp : varInt62Of bs with
  | none => exact iff_of_false Bool.false_ne_true (by rintro ⟨p, q, heq, -⟩; cases heq)
  | some p =>
    have hsid := DataReader.readVarInt62_eq (r := r.advancePos p.2) hwell
    rw [DataReader.unread_advancePos, hunread] at hsid
    dsimp only
    rw [hsid]
    cases hq : varInt62Of (bs.drop p.2) with
    | none =>
      -- the second number is cut off
      refine iff_of_false Bool.false_ne_true ?_
      rintro ⟨p', q, heq, heq', -⟩
      cases heq
      rw [hq] at heq'
      cases heq'
    | some q =>
      -- both are there: it is up to the address and port
      have hleft : ((r.advancePos p.2).advancePos q.2).bytesRemaining =
          (bs.drop (p.2 + q.2)).length := by
        rw [← DataReader.unread_length (r := (r.advancePos p.2).advancePos q.2) hwell,
          DataReader.unread_advancePos, DataReader.unread_advancePos, hunread, List.drop_drop]
      have horigin := readOrigin_success ((r.advancePos p.2).advancePos q.2)
      rw [hleft] at horigin
      have hiff : decide (6 ≤ (bs.drop (p.2 + q.2)).length) = true ↔ ∃ p' q', some p = some p' ∧
          varInt62Of (bs.drop p'.2) = some q' ∧ 6 ≤ (bs.drop (p'.2 + q'.2)).length := by
        rw [decide_eq_true_iff]
        constructor
        · exact fun hsix => ⟨p, q, rfl, hq, hsix⟩
        · rintro ⟨p', q', heq, heq', hsix⟩
          cases heq
          cases hq.symm.trans heq'
          exact hsix
      dsimp only
      rw [← hiff, ← horigin]
      generalize DataReader.readUInt32 ((r.advancePos p.2).advancePos q.2) = res
      obtain ⟨_ | ip, r'⟩ := res
      · exact Iff.rfl
      · dsimp only
        generalize DataReader.readUInt16 r' = res'
        obtain ⟨_ | port, r''⟩ := res'
        · exact Iff.rfl
        · exact Iff.rfl

/-- The reads tell whether a message is complete: the code does not look. -/
theorem completeMeta_iff (data : Bytes) : CompleteMeta data ↔
    data.head? = some proxyMessageMeta ∧ (readMeta data).2.2.2 = true := by
  constructor
  · rintro ⟨uuid, sid, encUuid, encSid, ip, port, rest, rfl, huuid, hsid, hip, hport⟩
    refine ⟨rfl, (readMeta_success_iff _ _).2 ⟨(uuid, encUuid.length), (sid, encSid.length),
      varInt62Of_append huuid _, ?_, ?_⟩⟩
    · rw [List.drop_left]
      exact varInt62Of_append hsid _
    · rw [← List.drop_drop, List.drop_left, List.drop_left, List.length_append,
        List.length_append]
      omega
  · rintro ⟨hhead, hsome⟩
    cases data with
    | nil => cases hhead
    | cons b bs =>
      cases hhead
      obtain ⟨⟨uuid, width⟩, ⟨sid, width'⟩, huuid, hsid, hsix⟩ :=
        (readMeta_success_iff _ _).1 hsome
      dsimp only at hsid hsix
      have hwidth := (varInt62Of_bounds huuid).2.2.2
      have hwidth' := (varInt62Of_bounds hsid).2.2.2
      rw [← List.drop_drop] at hsix
      refine ⟨uuid, sid, bs.take width, (bs.drop width).take width',
        ((bs.drop width).drop width').take 4, (((bs.drop width).drop width').drop 4).take 2,
        (((bs.drop width).drop width').drop 4).drop 2, ?_, ?_, ?_, ?_, ?_⟩
      · rw [List.take_append_drop, List.take_append_drop, List.take_append_drop,
          List.take_append_drop]
      · rw [List.length_take_of_le hwidth]
        exact varInt62Of_take huuid
      · rw [List.length_take_of_le hwidth']
        exact varInt62Of_take hsid
      · exact List.length_take_of_le (by omega)
      · exact List.length_take_of_le (by rw [List.length_drop]; omega)

/-! ## What a message changes -/

/-- Nothing of what a session changes has changed: the server and session of the connection, the
    registry, and the servers made so far. -/
structure Unaffected (c : ℕ) (w w' : World) : Prop where
  server : (w'.connections c).server = (w.connections c).server
  uuid : (w'.connections c).uuid = (w.connections c).uuid
  registry : w'.uuidSessions = w.uuidSessions
  serverCount : w'.serverCount = w.serverCount

/-- The message is not for a session, or the connection has one, or the number that is read is
    zero: then there is such a session, which is the one the connection has, or no socket for
    a new one. -/
def Ignored (c : ℕ) (data : Bytes) (w : World) : Prop :=
  data.head? ≠ some proxyMessageMeta ∨ (w.connections c).uuid ≠ 0 ∨
    ((readMeta data).1 = 0 ∧ match w.uuidSessions.find 0 (readMeta data).2.1 with
      | some s => (w.connections c).server = some s
      | none => w.starts.headD .noSocket = .noSocket)

/-- The connection has this server and session, with this registry and number of servers. -/
structure Has (c : ℕ) (server : Option ℕ) (uuid : UInt64) (sessions : UuidSessions)
    (serverCount : ℕ) (w : World) : Prop where
  server : (w.connections c).server = server
  uuid : (w.connections c).uuid = uuid
  registry : w.uuidSessions = sessions
  serverCount : w.serverCount = serverCount

variable {w w' : World} {c : ℕ} {server : Option ℕ} {uuid : UInt64} {sessions : UuidSessions}
  {serverCount : ℕ}

theorem Has.unaffected (h : Has c server uuid sessions serverCount w') :
    Unaffected c w w' ↔ server = (w.connections c).server ∧ uuid = (w.connections c).uuid ∧
      sessions = w.uuidSessions ∧ serverCount = w.serverCount := by
  constructor
  · rintro ⟨hserver, huuid, hregistry, hcount⟩
    exact ⟨h.server.symm.trans hserver, h.uuid.symm.trans huuid, h.registry.symm.trans hregistry,
      h.serverCount.symm.trans hcount⟩
  · rintro ⟨hserver, huuid, hregistry, hcount⟩
    exact ⟨h.server.trans hserver, h.uuid.trans huuid, h.registry.trans hregistry,
      h.serverCount.trans hcount⟩

/-- Writing does not change these. -/
theorem has_writes (c : ℕ) (server : Option ℕ) (uuid : UInt64) (sessions : UuidSessions)
    (serverCount : ℕ) :
    Writes (Has c server uuid sessions serverCount) fun _ => True where
  packet := trivial
  deleted := trivial
  calls _ h := ⟨h.server, h.uuid, h.registry, h.serverCount⟩
  write {w} c' f hop h := by
    obtain ⟨-, -, huuid, hserver⟩ := hop.same (w.connections c')
    refine ⟨?_, ?_, h.registry, h.serverCount⟩
    · rcases eq_or_ne c c' with rfl | hne
      · rw [updateConnection_self, hserver, h.server]
      · rw [updateConnection_ne w c' f hne, h.server]
    · rcases eq_or_ne c c' with rfl | hne
      · rw [updateConnection_self, huuid, h.uuid]
      · rw [updateConnection_ne w c' f hne, h.uuid]

/-- A connection that joins a server has it, and nothing else of these changes. -/
theorem join_has {s : ℕ} (h : w.join c s = .ok w') :
    Has c (some s) (w.connections c).uuid w.uuidSessions w.serverCount w' := by
  refine Outcome.of_ok (E := fun _ => True) (join_outcome trivial ?_ fun h' => ?_) h
  · rw [updateServer_eq (by rfl)]
    refine ⟨?_, ?_, rfl, rfl⟩
    · exact congrArg TcpConnectionBase.server (updateConnection_self w c (.joined s))
    · exact (congrArg TcpConnectionBase.uuid (updateConnection_self w c (.joined s))).trans rfl
  · exact (has_writes c _ _ _ _).notifyConnected c h'

/-- A session that no server has: there is no socket, or there is one server more. -/
theorem createServer_has {uuid sid : UInt64} {originDst : OriginDst}
    (hfind : w.uuidSessions.find uuid sid = none)
    (h : w.createServer c uuid sid originDst = .ok w') :
    if w.starts.headD .noSocket = .noSocket then
      Has c (w.connections c).server (w.connections c).uuid w.uuidSessions w.serverCount w'
    else w'.serverCount = w.serverCount + 1 := by
  cases hstart : w.starts.headD .noSocket with
  | noSocket =>
    rw [createServer, hstart] at h
    cases h
    exact ⟨rfl, rfl, rfl, rfl⟩
  | failed =>
    rw [createServer_failed originDst hfind hstart] at h
    cases h
  | started =>
    obtain ⟨sessions, -, heq⟩ := createServer_started (c := c) originDst hfind hstart
    rw [heq] at h
    cases h
    rfl

/-- A session that is read, when the connection has none, and a server has it. -/
theorem join_unaffected_iff {s : ℕ} {uuid : UInt64} (huuid : (w.connections c).uuid = 0)
    (h : (w.updateConnection c ({ · with uuid := uuid })).join c s = .ok w') :
    Unaffected c w w' ↔ uuid = 0 ∧ (w.connections c).server = some s := by
  have hjoin := join_has h
  have hread : ((w.updateConnection c ({ · with uuid := uuid })).connections c).uuid = uuid := by
    rw [updateConnection_self]
  rw [hread] at hjoin
  rw [hjoin.unaffected, huuid]
  constructor
  · rintro ⟨hsame, hzero, -, -⟩
    exact ⟨hzero, hsame.symm⟩
  · rintro ⟨hzero, hsame⟩
    exact ⟨hsame.symm, hzero, rfl, rfl⟩

/-- The same, when no server has it. -/
theorem createServer_unaffected_iff {uuid sid : UInt64} {originDst : OriginDst}
    (huuid : (w.connections c).uuid = 0) (hfind : w.uuidSessions.find uuid sid = none)
    (h : (w.updateConnection c ({ · with uuid := uuid })).createServer c uuid sid originDst =
      .ok w') :
    Unaffected c w w' ↔ uuid = 0 ∧ w.starts.headD .noSocket = .noSocket := by
  have hread : ((w.updateConnection c ({ · with uuid := uuid })).connections c).uuid = uuid := by
    rw [updateConnection_self]
  have hserver : ((w.updateConnection c ({ · with uuid := uuid })).connections c).server =
      (w.connections c).server := by rw [updateConnection_self]
  have hcreate := createServer_has (c := c)
    (w := w.updateConnection c ({ · with uuid := uuid })) hfind h
  split_ifs at hcreate with hstart
  · rw [hread, hserver] at hcreate
    rw [hcreate.unaffected, huuid]
    exact ⟨fun hall => ⟨hall.2.1, hstart⟩, fun hall => ⟨rfl, hall.1, rfl, rfl⟩⟩
  · -- there is one server more
    refine iff_of_false (fun hall => ?_) fun hall => hstart hall.2
    have hcount := hcreate.symm.trans hall.serverCount
    exact Nat.succ_ne_self _ hcount

/-- Nothing has changed exactly if the message is ignored, complete or not. -/
theorem unaffected_iff_ignored {data : Bytes} (h : w.parseMessageLeft c data = .ok w') :
    Unaffected c w w' ↔ Ignored c data w := by
  rw [parseMessageLeft] at h
  rw [Ignored]
  by_cases hmeta : data.head? = some proxyMessageMeta ∧ (w.connections c).uuid = 0
  · -- the session is read, whatever there is of it
    rw [if_pos hmeta] at h
    dsimp only at h
    rw [show (w.updateConnection c ({ · with uuid := (readMeta data).1 })).uuidSessions =
      w.uuidSessions from rfl] at h
    rw [or_iff_right (not_not.2 hmeta.1), or_iff_right (not_not.2 hmeta.2)]
    cases hfind : w.uuidSessions.find (readMeta data).1 (readMeta data).2.1 with
    | some s =>
      rw [hfind] at h
      rw [join_unaffected_iff hmeta.2 h]
      refine and_congr_right fun hzero => ?_
      rw [hzero] at hfind
      rw [hfind]
    | none =>
      rw [hfind] at h
      rw [createServer_unaffected_iff hmeta.2 hfind h]
      refine and_congr_right fun hzero => ?_
      rw [hzero] at hfind
      rw [hfind]
  · rw [if_neg hmeta] at h
    cases h
    refine iff_of_true ⟨rfl, rfl, rfl, rfl⟩ ?_
    by_cases hhead : data.head? = some proxyMessageMeta
    · exact .inr (.inl fun huuid => hmeta ⟨hhead, huuid⟩)
    · exact .inl hhead

/-- A message that is not a complete one for a session changes no server, session or registry
    exactly if it is ignored for another reason, or it is complete. -/
theorem unaffected_iff {data : Bytes} (h : w.parseMessageLeft c data = .ok w') :
    (¬CompleteMeta data → Unaffected c w w') ↔ CompleteMeta data ∨ Ignored c data w := by
  rw [unaffected_iff_ignored h, or_iff_not_imp_left]

/-- The first connection of a client, and how its server will start. -/
def oneLeft (start : SocketStart) : World :=
  { empty 0 with connections := fun _ => .newLeft, connectionCount := 1, starts := [start] }

/-- Nothing but the type, when no socket can be made. -/
theorem unaffected_iff_type :
    (¬CompleteMeta [proxyMessageMeta] → Unaffected 0 (oneLeft .noSocket)
      ({ oneLeft .noSocket with starts := [] }.updateConnection 0 id)) ↔
      CompleteMeta [proxyMessageMeta] ∨ Ignored 0 [proxyMessageMeta] (oneLeft .noSocket) :=
  unaffected_iff (by rfl)

/-- A message that ends in the middle of its numbers makes a server all the same: its session is
    `(5, 0)`, and there is no address to connect to. -/
theorem not_unaffected_cut : ∃ w', (oneLeft .started).parseMessageLeft 0 [proxyMessageMeta, 5] =
    .ok w' ∧ ¬CompleteMeta [proxyMessageMeta, 5] ∧ ¬Unaffected 0 (oneLeft .started) w' ∧
      (w'.connections 0).server = some 0 ∧ (w'.servers 0).originDst = none ∧
      w'.uuidSessions.find 5 0 = some 0 := by
  refine ⟨_, rfl, ?_, fun h => ?_, rfl, rfl, rfl⟩
  · rw [completeMeta_iff]
    exact fun h => Bool.false_ne_true h.2
  · cases h.server

end World

end Mpproxy

end DashDim
