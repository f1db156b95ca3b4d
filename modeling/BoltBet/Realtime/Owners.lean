import BoltBet.Async.Link
import BoltBet.Identity.Footprint
import BoltBet.Identity.History
import BoltBet.Market.Notices
import BoltBet.Market.Payout

/-!
# Settlement events reach only their owner

`notified` links the API with the services that hold the sockets. The notification worker is handed
what the API published, any number of times and in any order.

* `Presented d k u`: socket `k` presented a token of user `u` that verified and was not blacklisted.
* `Routed`: rooms hold only sockets that presented a token of their user, and what was received
  names a bet of the user of such a room.
* **`settled_reaches_owner`**: a settled bet is received only by sockets that presented a token of
  its user.
-/

namespace BoltBet

open Async

variable {T : Type} [Ring T] [LinearOrder T] [FloorRing T] {P : Platform}

/-! ## Specification -/

/-- What the worker is handed was published. -/
def published (c : Config api) (_ : Config (auth T P)) : Event (auth T P) → Prop
  | .spawn _ (.notification _ payload) => payload ∈ c.state.notifications
  | _ => True

instance : ∀ (c : Config api) (d : Config (auth T P)) e, Decidable (published c d e)
  | c, _, .spawn _ call => by
    unfold published
    cases call <;> infer_instance
  | _, _, .run _ _ => inferInstanceAs (Decidable True)
  | _, _, .crash _ => inferInstanceAs (Decidable True)
  | _, _, .env _ => inferInstanceAs (Decidable True)

/-- **The API and the sockets.** -/
abbrev notified (T : Type) [Ring T] [LinearOrder T] [FloorRing T] (P : Platform) :
    Link api (auth T P) where
  left _ _ _ := True
  right := published

/-- Socket `k` presented a token of user `u`: its connection verified it, and found it on no
blacklist. -/
def Presented (d : Config (auth T P)) (k : Nat) (u : Uuid) : Prop :=
  ∃ x ∈ d.trace, ∃ y ∈ d.trace, ∃ token p, x.call = .connection k (some token) ∧
    x.op = .verifyAsync token ∧ x.before.verify token = .ok p ∧
    y.tid = x.tid ∧ y.op = .blacklistGet p.jti ∧ y.before.blacklisted p.jti = false ∧ p.sub = u

/-- **Every settled bet that a socket received is one of a user whose token it presented.** -/
def OwnersOnly (c : Config api) (d : Config (auth T P)) : Prop :=
  ∀ k betId name result payout, (k, .betSettled betId name result payout) ∈ d.state.received →
    ∃ b ∈ c.state.bets, b.id = betId ∧ (∀ b' ∈ c.state.bets, b'.id = betId → b' = b) ∧
      Presented d k b.userId

/-! ## The connections -/

section Connections

variable {now : T} {i : Nat} {call : AuthCall} {d d' : Config (auth T P)} {k : Nat} {u : Uuid}

theorem Presented.later (h : Presented d k u) (hle : d.trace <:+ d'.trace) : Presented d' k u := by
  obtain ⟨x, hx, y, hy, h⟩ := h
  exact ⟨x, hle.subset hx, y, hle.subset hy, h⟩

/-- A socket joins the room of a user whose token it presented. -/
theorem presented_of_join (hd : (auth T P).Reachable ((auth T P).init (.empty now)) d)
    (hw : d.Waits i call (.join k u)) : Presented d k u := by
  obtain ⟨l, hl, token, p, hcall, hverified, hget, rfl⟩ := Machine.along_waits auth_along hd hw
  obtain ⟨x, hx, hxi, hxc, hxo, -, ch, s, hexec⟩ := (hl.ran _ hverified).entry
  obtain ⟨y, hy, hyi, -, hyo, -, ch', s', hexec'⟩ := (hl.ran _ hget).entry
  refine ⟨x, hx, y, hy, token, p, hxc.trans hcall, hxo, (Prod.mk.inj (Option.some.inj hexec)).1,
    hyi.trans hxi.symm, hyo, ?_, rfl⟩
  have hnone := Except.ok.inj (Prod.mk.inj (Option.some.inj hexec')).1
  by_cases hb : y.before.blacklisted p.jti = true
  · rw [if_pos hb] at hnone
    exact absurd hnone (by simp)
  · exact Bool.not_eq_true _ ▸ hb

end Connections

/-! ## Every run -/

/-- The rooms and what was received, over the bets and the notifications of the API. -/
structure Routed (c : Config api) (d : Config (auth T P)) : Prop where
  handed : ∀ n tag payload, d.Started n (.notification tag payload) →
    payload ∈ c.state.notifications
  rooms : ∀ x ∈ d.state.rooms, Presented d x.1 x.2
  received : ∀ k betId name result payout,
    (k, .betSettled betId name result payout) ∈ d.state.received →
      ∃ u, Presented d k u ∧ c.state.Owns u betId

namespace Routed

variable {now : T} {c c' : Config api} {d d' : Config (auth T P)}

/-- A step of the API. -/
theorem left (h : Routed c d) {e : Event api} (hs : api.step c e = some c') : Routed c' d where
  handed n tag payload hstart := Notices.notifications_step hs (h.handed n tag payload hstart)
  rooms := h.rooms
  received k betId name result payout hx := by
    obtain ⟨u, hu, howns⟩ := h.received k betId name result payout hx
    exact ⟨u, hu, howns.later (Later.step hs)⟩

/-- A step of the sockets that runs no operation. -/
theorem idle (h : Routed c d) {e : Event (auth T P)} (hs : (auth T P).step d e = some d')
    (hok : published c d e) (htrace : d'.trace = d.trace) (hrooms : d'.state.rooms ⊆ d.state.rooms)
    (hreceived : d'.state.received = d.state.received) : Routed c d' where
  handed n tag payload hstart := by
    rcases (Machine.started_iff hs).mp hstart with hstart | rfl
    · exact h.handed n tag payload hstart
    · exact hok
  rooms x hx := (h.rooms x (hrooms hx)).later (htrace ▸ List.suffix_rfl)
  received k betId name result payout hx := by
    obtain ⟨u, hu, howns⟩ := h.received k betId name result payout (hreceived ▸ hx)
    exact ⟨u, hu.later (htrace ▸ List.suffix_rfl), howns⟩

/-- An operation of the sockets. -/
theorem run (h : Routed c d) (hc : api.Reachable (api.init .empty) c)
    (hd : (auth T P).Reachable ((auth T P).init (.empty now)) d) {i : Nat}
    {m : Mode AuthChoice AuthErr} {call : AuthCall} {o : AuthOp T} {r : Except AuthErr o.Res}
    (hs : (auth T P).step d (.run i m) = some d') (hw : d.Waits i call o)
    (hx : (auth T P).Exec i call o d.toWorld r d'.toWorld) : Routed c d' := by
  have hle : d.trace <:+ d'.trace := Machine.trace_step hs
  have hfoot : AuthFootprint call o := Machine.waits_all (auth_footprint P) hd hw
  refine ⟨fun n tag payload hstart => ?_, fun x hx' => ?_,
    fun k betId name result payout hx' => ?_⟩
  · rcases (Machine.started_iff hs).mp hstart with hstart | he
    · exact h.handed n tag payload hstart
    · exact absurd he (by simp)
  · rcases auth_exec_effect hx with hsame | ⟨ch, he⟩
    · exact (h.rooms x (hsame ▸ hx')).later hle
    · rcases he.rooms_cases hx' with hx' | rfl
      · exact (h.rooms x hx').later hle
      · exact (presented_of_join hd hw).later hle
  · have hold : (k, .betSettled betId name result payout) ∈ d.state.received →
        ∃ u, Presented d' k u ∧ c.state.Owns u betId := by
      intro hx'
      obtain ⟨u, hu, howns⟩ := h.received k betId name result payout hx'
      exact ⟨u, hu.later hle, howns⟩
    rcases auth_exec_effect hx with hsame | ⟨ch, he⟩
    · exact hold (hsame ▸ hx')
    · rcases he.received_cases hx' with hx' | ⟨u, rfl, hroom⟩ | rfl
      · exact hold hx'
      · obtain ⟨tag, rfl⟩ := hfoot.notification_of_emitTo
        have hpub := h.handed i tag _ hw.started
        exact ⟨u, (h.rooms _ hroom).later hle, Notices.notices_named hc hpub⟩
      · exact absurd rfl (hfoot.emit_ne betId name result payout)

end Routed

section Runs

variable {now : T} {c : Config api} {d : Config (auth T P)}

theorem routed (h : (notified T P).Reach (api.init .empty) ((auth T P).init (.empty now)) c d) :
    Routed c d := by
  refine h.follow (I := api.Reachable (api.init .empty))
    (K := (auth T P).Reachable ((auth T P).init (.empty now))) id id ?_
    (fun {c c' d e} _ _ ih _ hs => ih.left hs) fun {c d d' e} hc hd _ ih hok hs => ?_
  · refine ⟨fun n tag payload hstart => ?_, by simp [Machine.init, AuthStore.empty],
      by simp [Machine.init, AuthStore.empty]⟩
    obtain ⟨p, b, hp⟩ := hstart
    exact absurd hp (by simp [Machine.init])
  · rcases Machine.step_cases hs with ⟨i, call, s, rfl, -, hst, rfl⟩ |
      ⟨i, m, call, o, k, r, w', rfl, hi, hx, rfl⟩ | ⟨i, call, o, k, rfl, -, rfl⟩ |
      ⟨v, s, rfl, hv, rfl⟩
    · obtain ⟨hrooms, hreceived⟩ := auth_start_rooms hst
      exact ih.idle hs hok rfl (hrooms ▸ List.Subset.refl _) hreceived
    · exact ih.run hc hd hs ⟨k, hi⟩ hx
    · exact ih.idle hs hok rfl (List.Subset.refl _) rfl
    · obtain ⟨hrooms, hreceived⟩ := auth_env_rooms hv
      exact ih.idle hs hok rfl hrooms hreceived

/-- **Settlement events reach only their owner.** -/
theorem settled_reaches_owner
    (h : (notified T P).Reach (api.init .empty) ((auth T P).init (.empty now)) c d) :
    OwnersOnly c d := by
  intro k betId name result payout hx
  obtain ⟨u, hu, b, hb, rfl, rfl⟩ := (routed h).received k betId name result payout hx
  refine ⟨b, hb, rfl, fun b' hb' hid => ?_, hu⟩
  exact List.inj_on_of_nodup_map (Notices.betIds h.fst) hb' hb hid

end Runs

/-! ## Small runs -/

/-- Socket 5 presents the access token of user 7, socket 6 has not presented one yet, and the win of
user 7 is delivered. -/
def pushed : List (Event api ⊕ Event (auth ℤ sample)) :=
  acceptThenWin.map .inl ++ (signedIn ++
    .spawn 2 (.connection 5 (some "20")) :: answer 2 [{}, {}, {}] ++
    .spawn 3 (.connection 6 (some "20")) ::
    .spawn 4 (.notification 0 (.BET_SETTLED 7 0 "Man City to win" .WIN 240)) ::
    answer 4 [{}, {}]).map .inr

/-- Only socket 5 receives it. -/
theorem settled_reaches_owner_one : ∃ c d,
    Link.replay api (auth ℤ sample) (api.init .empty) ((auth ℤ sample).init (.empty 0)) pushed =
      some (c, d) ∧ d.state.connected = [6, 5] ∧
    d.state.received = [(5, .betSettled 0 "Man City to win" .WIN 240)] ∧ OwnersOnly c d := by
  obtain ⟨c, d, hr, hconnected, hreceived⟩ : ∃ c d,
      Link.replay api (auth ℤ sample) (api.init .empty) ((auth ℤ sample).init (.empty 0)) pushed =
        some (c, d) ∧ d.state.connected = [6, 5] ∧
      d.state.received = [(5, .betSettled 0 "Man City to win" .WIN 240)] := ⟨_, _, rfl, rfl, rfl⟩
  have hallows : (notified ℤ sample).Allows (api.init .empty) ((auth ℤ sample).init (.empty 0))
      pushed := by decide
  exact ⟨c, d, hr, hconnected, hreceived, settled_reaches_owner (.of_replay .init hr hallows)⟩

end BoltBet
