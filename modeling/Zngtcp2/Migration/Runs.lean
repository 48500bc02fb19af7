import Zngtcp2.Migration.Send

namespace Zngtcp2.Migration

open Lib.Run (Ends Guarded run run_ends ok_of_toOption)

variable {s : Setup} {conn : Conn}

def owedAt (path : Path) (n : Nat) : Path → Nat :=
  Function.update (fun _ => 0) path (n * 3)

theorem owedAt_self (path : Path) (n : Nat) : owedAt path n path = n * 3 := by
  rw [owedAt, Function.update_self]

theorem owedAt_of_ne {path p : Path} (h : p ≠ path) (n : Nat) : owedAt path n p = 0 := by
  rw [owedAt, Function.update_of_ne h]

theorem Account.receive {l : Ledger} {dcid : Dcid} (h : Account l (fun _ => 0) dcid) (path : Path) (n : Nat) :
    Account { l with received := Function.update l.received path (l.received path + n) } (owedAt path n) dcid := by
  refine ⟨h.left, fun hp => ?_⟩
  have := h.paid hp
  by_cases heq : dcid.path = path
  · subst heq
    simp only [owedAt_self, Function.update_self]
    omega
  · simp only [owedAt_of_ne heq, Function.update_of_ne heq]
    exact this

/-- The bytes of a datagram are owed to its path until they are entered at its connection ID. -/
theorem Inv.receive (h : Inv s conn) (hsettled : s.owed = fun _ => 0) (path : Path) (n : Nat) :
    Inv { s with owed := owedAt path n }
      { conn with received := Function.update conn.received path (conn.received path + n) } := by
  refine ⟨{ h.core with safe := fun hs => ?_ }, fun pv hpv => { h.pv pv hpv with safe := fun hs => ?_ }⟩
  · have hsafe := h.core.safe hs
    refine { hsafe with
      account := (hsafe.account.receive path n).mono fun _ => Nat.zero_le _
      bound := fun d hd => { hsafe.bound d hd with account := ?_ }
      total := fun p hp => ?_
      peak := fun p hp => Nat.le_trans (hsafe.peak p hp) (Nat.mul_le_mul_right 3 ?_) }
    · exact (hsettled ▸ (hsafe.bound d hd).account).receive path n
    · have := hsafe.total p hp
      rw [hsettled] at this
      by_cases heq : p = path
      · subst heq
        simp only [owedAt_self, Function.update_self]
        omega
      · simp only [owedAt_of_ne heq, Function.update_of_ne heq]
        exact this
    · by_cases heq : p = path
      · subst heq
        simp only [Function.update_self]
        exact Nat.le_add_right _ _
      · simp only [Function.update_of_ne heq]
        exact Nat.le_refl _
  · have hsafe := (h.pv pv hpv).safe hs
    exact { hsafe with
      account := fun hne => (hsettled ▸ hsafe.account hne).receive path n
      fallback := fun d hd => ⟨{ (hsafe.fallback d hd).1 with
        account := (hsettled ▸ (hsafe.fallback d hd).1.account).receive path n }, (hsafe.fallback d hd).2⟩ }

/-- What is owed to a path that has been validated does not matter. -/
theorem Inv.owe (h : Inv s conn) (hsettled : s.owed = fun _ => 0) {path : Path} (hpath : s.server = true → path ∈ conn.answered)
    (n : Nat) : Inv { s with owed := owedAt path n } conn := by
  have howe : ∀ {l : Ledger} {d : Dcid}, path ∈ l.answered → Account l s.owed d → Account l (owedAt path n) d := by
    intro l d hmem ha
    refine ⟨ha.left, fun hp => ?_⟩
    have := ha.paid hp
    rw [hsettled] at this
    rwa [owedAt_of_ne (ne_of_mem_of_not_mem hmem hp).symm]
  refine ⟨{ h.core with safe := fun hs => ?_ }, fun pv hpv => { h.pv pv hpv with safe := fun hs => ?_ }⟩
  · have hsafe := h.core.safe hs
    refine { hsafe with
      bound := fun d hd => { hsafe.bound d hd with account := howe (hpath hs) (hsafe.bound d hd).account }
      total := fun p hp => ?_ }
    have := hsafe.total p hp
    rw [hsettled] at this
    simpa only [owedAt_of_ne (ne_of_mem_of_not_mem (hpath hs) hp).symm] using this
  · have hsafe := (h.pv pv hpv).safe hs
    exact { hsafe with
      account := fun hne => howe (hpath hs) (hsafe.account hne)
      fallback := fun d hd => ⟨{ (hsafe.fallback d hd).1 with
        account := howe (hpath hs) (hsafe.fallback d hd).1.account }, (hsafe.fallback d hd).2⟩ }

theorem Inv.withState (h : Inv s conn) {state : State} (hstate : state ≠ .handshake) :
    Inv { s with state := state } { conn with state := state } := by
  refine ⟨{ h.core with
    state := rfl
    safe := fun hs => ?_ }, fun pv hpv => { h.pv pv hpv with safe := fun hs => ?_ }⟩
  · have hsafe := h.core.safe hs
    exact { hsafe with
      bound := fun d hd => { hsafe.bound d hd with }
      pmtud := fun heq => absurd heq hstate }
  · have hsafe := (h.pv pv hpv).safe hs
    exact { hsafe with
      state := hstate
      fallback := fun d hd => ⟨{ (hsafe.fallback d hd).1 with }, (hsafe.fallback d hd).2⟩ }

/-- The invariant between two inputs. -/
def Holds (s : Setup) (conn : Conn) : Prop :=
  Inv { s with state := conn.state, owed := fun _ => 0 } conn

theorem Inv.holds (h : Inv s conn) (hsettled : s.owed = fun _ => 0) : Holds s conn := by
  rw [Holds, h.core.state, ← hsettled]
  exact h

def Frame.valid : Frame → Bool
  | .newConnectionId fr => decide (fr.cid ≠ []) && decide (fr.seq < 2 ^ 62)
  | _ => true

/-- What a server relies on: frames are decoded, only a Handshake packet completes the handshake, and the
functions of a client are not called. -/
def Allowed (conn : Conn) : Input → Prop
  | .readPkt _ _ dgram pkt _ => conn.server = true →
      (dgram.completed = true → dgram.handshakePkt = true) ∧ pkt.all (fun p => p.frames.all Frame.valid) = true
  | .initiateMigration .. | .initiateImmediateMigration .. => conn.server = false
  | _ => True

instance decidableAllowed (conn : Conn) : (input : Input) → Decidable (Allowed conn input)
  | .readPkt _ _ dgram pkt _ => inferInstanceAs (Decidable (conn.server = true →
      (dgram.completed = true → dgram.handshakePkt = true) ∧ pkt.all (fun p => p.frames.all Frame.valid) = true))
  | .initiateMigration .. | .initiateImmediateMigration .. => inferInstanceAs (Decidable (conn.server = false))
  | .writeVmsg _ | .writeConnectionClose _ | .handleExpiry _ | .pmtudProgress .. | .clientHandshakeCompleted .. => .isTrue trivial

/-- A datagram with a Handshake packet came from the path. -/
def HandshakeFrom (inputs : List Input) (path : Path) : Prop :=
  ∃ dgramlen dgram pkt env, .readPkt path dgramlen dgram pkt env ∈ inputs ∧ dgram.handshakePkt = true

/-- A PATH_RESPONSE frame with this data was received. -/
def Responded (inputs : List Input) (data : List UInt8) : Prop :=
  ∃ path dgramlen dgram pkt env, .readPkt path dgramlen dgram (some pkt) env ∈ inputs ∧ .pathResponse data ∈ pkt.frames

/-- The reasons for which the inputs of a run validate a path; `first` is the path of the first Initial packet. -/
def setup (server : Bool) (cid : List UInt8) (first : Path) (token : Bool) (inputs : List Input) : Setup where
  server := server
  zerolen := decide (cid = [])
  state := .handshake
  owed := fun _ => 0
  trusted := fun path => (server && token) = true ∧ path = first ∨ HandshakeFrom inputs path
  responded := Responded inputs

/-- What an input tells about paths is noted. -/
def Setup.Notes (s : Setup) : Input → Prop
  | .readPkt path _ dgram pkt _ =>
      (dgram.handshakePkt = true → s.trusted path) ∧ ∀ p ∈ pkt, ∀ data, .pathResponse data ∈ p.frames → s.responded data
  | _ => True

theorem setup_notes {server token : Bool} {cid : List UInt8} {first : Path} {inputs : List Input} {input : Input}
    (h : input ∈ inputs) : (setup server cid first token inputs).Notes input := by
  cases input with
  | readPkt path dgramlen dgram pkt env =>
      refine ⟨fun hs => Or.inr ⟨dgramlen, dgram, pkt, env, h, hs⟩, fun p hp data hdata => ?_⟩
      cases hp
      exact ⟨path, dgramlen, dgram, p, env, h, hdata⟩
  | _ => trivial

theorem admits_of_valid {pkt : Option Pkt} (hvalid : s.server = true → pkt.all (fun p => p.frames.all Frame.valid) = true)
    (hnoted : ∀ p ∈ pkt, ∀ data, .pathResponse data ∈ p.frames → s.responded data) :
    ∀ p ∈ pkt, ∀ fr ∈ p.frames, s.Admits fr := by
  intro p hp fr hfr
  cases fr with
  | newConnectionId f =>
      intro hs
      have hall := hvalid hs
      rw [Option.mem_def.mp hp, Option.all_some] at hall
      have hf := List.all_eq_true.mp hall _ hfr
      simp only [Frame.valid, Bool.and_eq_true, decide_eq_true_eq] at hf
      exact hf
  | pathResponse data => exact hnoted p hp data hfr
  | _ => trivial

theorem new_holds (server : Bool) (cid : List UInt8) (path : Path) (token : Bool) (settings : Settings) (inputs : List Input) :
    Holds (setup server cid path token inputs) (Conn.new server cid path token settings) := by
  have hseqgap : SeqGaps [] := by
    refine ⟨⟨(fun _ hk => nomatch hk), List.Pairwise.nil⟩, fun x hx => Gaptr.mem_initialized_nil.mp hx, ?_⟩
    exact Gaptr.mem_initialized_nil.mpr (by decide)
  have hflag : (server && token) = true → path ∈ (if server && token then [path] else []) := by
    intro h
    rw [if_pos h]
    exact List.mem_singleton.mpr rfl
  have hanswered : ∀ p ∈ (if server && token then [path] else []), (server && token) = true ∧ p = path := by
    intro p hp
    split at hp
    · exact ⟨by assumption, List.mem_singleton.mp hp⟩
    · exact nomatch hp
  refine ⟨⟨rfl, rfl, hflag, (fun _ hd => nomatch hd), (fun _ hd => nomatch hd), (fun _ hent => nomatch hent),
    fun p hp => Or.inl (Or.inl (hanswered p hp)), fun _ => ?_⟩, fun _ hpv => nomatch hpv⟩
  refine ⟨decide_eq_true_iff.symm, ⟨fun _ => Nat.le_refl 0, fun _ => Nat.le_refl 0⟩, fun _ => ⟨rfl, rfl⟩,
    (fun _ hd => nomatch hd), (fun _ hd => nomatch hd), List.nodup_nil, fun _ _ => Nat.le_refl 0,
    fun _ _ => Nat.le_refl 0, ?_, fun _ => rfl⟩
  exact hseqgap.push (by decide)

theorem writeConnectionClose_holds (h : Inv s conn) (hsettled : s.owed = fun _ => 0) (w : WriteEnv) :
    Ends (Tolerated s.server True) (Holds s) (conn.writeConnectionClose w) := by
  rw [Conn.writeConnectionClose]
  have hclosed : ∀ n, (s.server = true → conn.current.Fits n) → Holds s { conn.sendUncounted n with state := .closing } :=
    fun n hfits => (@Inv.withState _ _ (sendUncounted_inv h hfits) .closing fun h => nomatch h).holds hsettled
  split
  · exact h.holds hsettled
  · refine Ends.bind (show Ends (Tolerated s.server True) (fun len => s.server = true → conn.current.Fits len) _ from ?_)
      fun len hlen => ?_
    · split
      · have hcounted : conn.counted conn.current = conn.current := if_pos rfl
        refine (serverTxLeft_ends h fun _ hne => absurd rfl hne).bind fun left hleft => ?_
        rw [hcounted] at hleft
        cases left with
        | none => exact fun hs => hleft hs _ fun _ hm => nomatch hm
        | some left => exact fun hs => hleft hs _ fun m hm => Option.some.inj hm ▸ Nat.min_le_right w.shaped left
      · rename_i hnot
        exact fun hs => absurd (h.core.server.trans hs) hnot
    · dsimp only
      split
      · exact fun _ => trivial
      · exact hclosed _ fun hs => (hlen hs).mono (Nat.min_le_right _ _)

theorem handleExpiry_inv (h : Inv s conn) (env : Env) : Ends (Tolerated s.server True) (Inv s) (conn.handleExpiry env) := by
  rw [Conn.handleExpiry]
  refine Ends.bind (show Ends (Tolerated s.server True) (fun dtr => Dcidtr.Within dtr conn.dtr) _ from ?_) fun dtr hdtr => ?_
  · split
    · exact (Dcidtr.Same.refl conn.dtr).within
    · rename_i hcid
      refine Dcidtr.retireStaleBoundDcid_ends (fun hs d hd hnil => ?_) _ _
      have hsafe := h.core.safe hs
      exact hcid (hsafe.cid.mpr ((hsafe.bound d hd).cid.mp hnil))
  · have hinv := h.withDtr (show Dcidtr.Within (dtr.removeStaleRetiredDcid env.pto env.ts) conn.dtr from ⟨hdtr.unused, hdtr.bound⟩)
    refine ⟨hinv.core.withPv _, fun pv' hpv' => ?_⟩
    obtain ⟨pv, hpv, rfl⟩ := Option.map_eq_some_iff.mp hpv'
    refine PvInv.withPv (?_ : PvInv s { conn with dtr := dtr.removeStaleRetiredDcid env.pto env.ts } _) _
    rw [Pv.cancelExpiredTimer]
    split
    · exact { hinv.pv pv hpv with safe := fun hs => { (hinv.pv pv hpv).safe hs with } }
    · exact hinv.pv pv hpv

theorem pmtudProgress_inv (h : Inv s conn) (payloadlen : Nat) (finished : Bool) :
    Inv s (conn.pmtudProgress payloadlen finished) := by
  rw [Conn.pmtudProgress]
  split
  · rename_i hpmtud
    have hon : conn.pmtud ≠ false := fun h => absurd (hpmtud.symm.trans h) (by decide)
    refine ⟨{ h.core with safe := fun hs => ?_ }, fun pv hpv => { h.pv pv hpv with safe := fun hs => ?_ }⟩
    · have hsafe := h.core.safe hs
      exact { hsafe with
        account := ⟨hsafe.account.left, hsafe.account.paid⟩
        pmtud := fun hstate => absurd (hsafe.pmtud hstate) hon }
    · have hsafe := (h.pv pv hpv).safe hs
      exact { hsafe with pmtud := fun hsome => absurd (hsafe.pmtud hsome) hon }
  · exact h

theorem recvHandshakePkt_inv (h : Inv s conn) (htrusted : s.trusted conn.current.path) :
    Inv s (conn.recvHandshakePkt conn.current.path) := by
  have hanswered := @Inv.answer _ _ h [conn.current.path] (List.forall_mem_singleton.mpr (Or.inl htrusted))
  have hmem : conn.current.path ∈ [conn.current.path] ++ conn.answered := List.mem_cons_self
  have hcore := @Core.withCurrent _ _ { conn.current with validated := true } hanswered.core (fun _ => hmem) fun hs =>
    ⟨(h.core.safe hs).cid, Account.of_validated rfl hmem, fun d hd => ((h.core.safe hs).bound d hd).current⟩
  refine ⟨hcore, fun pv hpv => { hanswered.pv pv hpv with safe := fun hs => ?_ }⟩
  exact { (hanswered.pv pv hpv).safe hs with validated := fun _ _ => rfl }

/-- The server has completed the handshake, unless the datagram leaves it open. -/
theorem serverHandshakeCompleted_ends (h : Inv s conn) (hstate : s.state = .handshake) (completed : Bool) (env : Env) :
    Ends (Tolerated s.server True) (fun conn' => conn'.ledger = conn.ledger ∧ conn'.current = conn.current ∧
      ∃ state, (s.server = true → completed = true → state ≠ .handshake) ∧ Inv { s with state := state } conn')
      (if conn.server && completed then
          Conn.startPmtudIf { conn with state := .postHandshake, handshakeConfirmed := true } env
        else .ok conn) := by
  split
  · have hconfirmed := (@Inv.withState _ _ h .postHandshake (by decide)).withOther true conn.pathChallenge
    have hpmtud := fun hs => (h.core.safe hs).pmtud hstate
    have hne : State.postHandshake ≠ .handshake := by decide
    refine (Conn.startPmtudIf_ends (s := s) ?_ env).mono ?_
    · exact hpmtud
    rintro conn' ⟨pmtud, rfl⟩
    refine ⟨rfl, rfl, .postHandshake, fun _ _ => hne, hconfirmed.core.withPmtud pmtud fun _ => hne, fun pv hpv => ?_⟩
    exact { hconfirmed.pv pv hpv with safe := fun hs => absurd hstate ((h.pv pv hpv).safe hs).state }
  · rename_i hnot
    refine ⟨rfl, rfl, s.state, fun hs hcompleted => absurd ?_ hnot, h⟩
    rw [h.core.server, hcompleted]
    exact Bool.and_eq_true_iff.mpr ⟨hs, rfl⟩

/-- The handshake is completed after a Handshake packet, so the rest of the datagram may be entered again. -/
theorem readHandshake_holds {path : Path} {dgramlen : Nat} {dgram : Conn.HandshakeDgram} {pkt : Option Pkt} (h : Inv s conn)
    (hstate : s.state = .handshake) (howed : s.owed = owedAt path dgramlen)
    (haccount : s.server = true → Account conn.ledger s.owed conn.current)
    (hdgram : s.server = true → dgram.completed = true → dgram.handshakePkt = true)
    (htrusted : dgram.handshakePkt = true → s.trusted path) (hpkt : ∀ p ∈ pkt, ∀ fr ∈ p.frames, s.Admits fr) (env : Env) :
    Ends (Tolerated s.server True) (Holds s) (conn.readHandshake path dgramlen dgram pkt env) := by
  rw [Conn.readHandshake]
  split
  · exact h.settle.holds rfl
  · rename_i hpath
    rw [ne_eq, not_not] at hpath
    subst hpath
    have hself : s.owed conn.current.path = dgramlen * 3 := by rw [howed, owedAt_self]
    have hgrown := (h.creditCurrent hself haccount).settle
    have hread : ∃ conn', (if dgram.handshakePkt then
          Conn.recvHandshakePkt { conn with current := conn.current.grow dgramlen 0 } conn.current.path
        else { conn with current := conn.current.grow dgramlen 0 }) = conn' ∧ Inv { s with owed := fun _ => 0 } conn' ∧
        conn'.current.path = conn.current.path ∧
        (dgram.handshakePkt = true → conn'.current.validated = true ∧ conn.current.path ∈ conn'.answered) := by
      refine ⟨_, rfl, ?_⟩
      split
      · rename_i hhandshake
        exact ⟨recvHandshakePkt_inv hgrown (htrusted hhandshake), rfl, fun _ => ⟨rfl, List.mem_cons_self⟩⟩
      · exact ⟨hgrown, rfl, fun h => absurd h (by assumption)⟩
    obtain ⟨conn₁, heq, h₁, hpath, hvalidated⟩ := hread
    dsimp only
    rw [heq]
    refine (serverHandshakeCompleted_ends h₁ hstate dgram.completed env).bind ?_
    rintro conn₂ ⟨hledger, hcurrent, state, hover, h₂⟩
    split
    · rename_i hrest
      rw [Bool.and_eq_true] at hrest
      have hanswered : s.server = true → conn.current.path ∈ conn₂.answered := fun hs => by
        have hmem := (hvalidated (hdgram hs hrest.1)).2
        rwa [show conn₂.answered = conn₁.answered from congrArg Ledger.answered hledger]
      refine (recvCpkt_inv (h₂.owe rfl hanswered dgram.rest) (fun hs => hover hs hrest.1) (owedAt_self _ _) (fun hs => ?_)
        hpkt env).mono fun _ h => h.holds rfl
      refine Account.of_validated ?_ ?_
      · rw [hcurrent]
        exact (hvalidated (hdgram hs hrest.1)).1
      · rw [hcurrent, hpath]
        exact hanswered hs
    · exact h₂.holds rfl

theorem readPkt_holds {path : Path} {dgramlen : Nat} {dgram : Conn.HandshakeDgram} {pkt : Option Pkt} (h : Inv s conn)
    (hsettled : s.owed = fun _ => 0) (hdgram : s.server = true → dgram.completed = true → dgram.handshakePkt = true)
    (htrusted : dgram.handshakePkt = true → s.trusted path) (hpkt : ∀ p ∈ pkt, ∀ fr ∈ p.frames, s.Admits fr) (env : Env) :
    Ends (Tolerated s.server True) (Holds s) (conn.readPkt path dgramlen dgram pkt env) := by
  have hreceived := h.receive hsettled path dgramlen
  have haccount : s.server = true → Account { conn.ledger with
      received := Function.update conn.received path (conn.received path + dgramlen) } (owedAt path dgramlen) conn.current :=
    fun hs => (h.core.safe hs).account.receive path dgramlen
  rw [Conn.readPkt]
  dsimp only
  split
  · exact hreceived.settle.holds rfl
  · split
    · exact hreceived.settle.holds rfl
    · rename_i hstate
      exact readHandshake_holds hreceived (h.core.state.symm.trans hstate) rfl haccount hdgram htrusted hpkt env
    · rename_i hstate
      have hpost : s.state ≠ .handshake := by
        rw [← h.core.state, hstate]
        exact fun h => nomatch h
      exact (recvCpkt_inv hreceived (fun _ => hpost) (owedAt_self _ _) haccount hpkt env).mono fun _ h => h.holds rfl

theorem clientHandshakeCompleted_holds (h : Inv s conn) (hsettled : s.owed = fun _ => 0)
    (preferred : Option (List UInt8 × List UInt8)) (token : Option (List UInt8)) (env : Env) :
    Ends (Tolerated s.server True) (Holds s) (conn.clientHandshakeCompleted preferred token env) := by
  rw [Conn.clientHandshakeCompleted.eq_def]
  split
  · exact h.holds hsettled
  · rename_i hnot
    have hclient : s.server = false := by
      rw [← h.core.server]
      exact Bool.eq_false_iff.mpr fun hs => hnot (Or.inl hs)
    have hserver : ∀ {p : Prop}, s.server = true → p := fun hs => absurd hs (not_server hclient)
    refine Ends.bind (show Ends _ (Inv s) _ from ?_) fun conn₁ h₁ => ?_
    · cases preferred with
      | none => exact h
      | some p =>
          refine (assert_ends hserver).bind fun _ _ => ?_
          refine ⟨{ h.core with
            unused := fun d hd => ?_
            safe := hserver }, fun pv hpv => { h.pv pv hpv with safe := hserver }⟩
          rcases mem_pushBack hd with hd | rfl
          · exact h.core.unused d hd
          · exact ⟨rfl, rfl, rfl⟩
    · refine (Conn.startPmtudIf_ends hserver env).mono ?_
      rintro conn₂ ⟨pmtud, rfl⟩
      have hpost := @Inv.withState _ _ h₁ .postHandshake (by decide)
      have htoken : (if conn₁.current.seq = 0 ∧ token.isSome then { conn₁.current with token := token } else conn₁.current).validated =
            conn₁.current.validated ∧
          (if conn₁.current.seq = 0 ∧ token.isSome then { conn₁.current with token := token } else conn₁.current).path =
            conn₁.current.path := by
        split <;> exact ⟨rfl, rfl⟩
      have hcore := hpost.core.withCurrent (fun hv => htoken.2 ▸ h₁.core.current (htoken.1 ▸ hv)) hserver
      refine Inv.holds (s := { s with state := .postHandshake }) ⟨hcore.withPmtud pmtud hserver, fun pv hpv => ?_⟩ hsettled
      exact { hpost.pv pv hpv with safe := hserver }

theorem initiateImmediateMigration_inv (h : Inv s conn) (hclient : s.server = false) (path : Path) (disabled : Bool) (env : Env) :
    Ends (Tolerated s.server True) (Inv s) (conn.initiateImmediateMigration path disabled env) := by
  have hserver : ∀ {p : Prop}, s.server = true → p := fun hs => absurd hs (not_server hclient)
  rw [Conn.initiateImmediateMigration]
  split
  · refine (Conn.abortIf_ends s.server { conn with pmtud := false } env.ts fun _ => trivial).bind ?_
    rintro conn₁ ⟨dtr₁, hdtr₁, rfl⟩
    have h₁ : Core s { conn with pmtud := false, pv := none, dtr := dtr₁ } :=
      ((h.core.withPmtud false hserver).withPv none).withDtr hdtr₁.within
    rw [Conn.retireActiveDcid]
    refine Ends.bind (show Ends _ (fun conn₂ => ∃ dtr₂, Dcidtr.Within dtr₂ conn.dtr ∧
      conn₂ = { conn with pmtud := false, pv := none, dtr := dtr₂ }) _ from ?_) ?_
    · refine (Dcidtr.retireActiveDcid_ends hserver _ env.ts fun _ => trivial).bind fun dtr₂ hdtr₂ => ?_
      exact ⟨dtr₂, hdtr₂.1.within.trans hdtr₁.within, rfl⟩
    · rintro conn₂ ⟨dtr₂, hdtr₂, rfl⟩
      refine (Dcidtr.popUnused_ends hserver).bind ?_
      rintro ⟨dcid, dtr₃⟩ ⟨hdcid, hwithin, -⟩
      have h₃ : Core s { conn with pmtud := false, pv := none, dtr := dtr₃ } :=
        ((h.core.withPmtud false hserver).withPv none).withDtr (hwithin.trans hdtr₂)
      obtain ⟨pathHistory, heq, hmem⟩ := Conn.addCurrentToHistory_spec h₃ env.ts 0
      have hv := (h.core.unused dcid (hdtr₂.unused dcid hdcid)).1
      have h₄ := @Core.withCurrent _ _ { dcid with path := path } (h₃.withHistory hmem)
        (fun h => absurd (hv.symm.trans h) (by decide)) hserver
      dsimp only
      rw [heq]
      split
      · rename_i i hfind
        obtain ⟨ent, hent, hpath⟩ := Conn.findPathHistory_mem hfind
        refine (Conn.startPmtudIf_ends (s := s) hserver env).mono ?_
        rintro conn₅ ⟨pmtud, rfl⟩
        exact ⟨(applyValidatedPath_core h₄ (hpath ▸ h₄.history ent hent) i).withPmtud pmtud hserver, fun _ hpv => by cases hpv⟩
      · refine ⟨h₄.withPv _, fun pv hpv => ?_⟩
        cases hpv
        refine newPv_client hclient ?_ _ _ _
        exact hv
  · exact h

theorem initiateMigration_inv (h : Inv s conn) (hclient : s.server = false) (path : Path) (disabled : Bool) (env : Env) :
    Ends (Tolerated s.server True) (Inv s) (conn.initiateMigration path disabled env) := by
  have hserver : ∀ {p : Prop}, s.server = true → p := fun hs => absurd hs (not_server hclient)
  rw [Conn.initiateMigration]
  split
  · exact initiateImmediateMigration_inv h hclient path disabled env
  · split
    · refine (Conn.abortIf_ends s.server conn env.ts fun _ => trivial).bind ?_
      rintro conn₁ ⟨dtr₁, hdtr₁, rfl⟩
      refine (Dcidtr.popUnused_ends hserver).bind ?_
      rintro ⟨dcid, dtr₂⟩ ⟨hdcid, hwithin, -⟩
      refine ⟨(h.core.withPv _).withDtr (hwithin.trans hdtr₁.within), fun pv hpv => ?_⟩
      cases hpv
      refine newPv_client hclient ?_ _ _ _
      exact (h.core.unused dcid (hdtr₁.unused ▸ hdcid)).1
    · exact h

theorem step_holds {input : Input} (h : Holds s conn) (hallowed : Allowed conn input) (hnoted : s.Notes input) :
    Ends (Tolerated s.server True) (Holds s) (step conn input) := by
  have hserver : conn.server = s.server := h.core.server
  cases input with
  | readPkt path dgramlen dgram pkt env =>
      have hall : s.server = true → _ := fun hs => hallowed (hserver.trans hs)
      have hpkt := admits_of_valid (fun hs => (hall hs).2) hnoted.2
      exact readPkt_holds h rfl (fun hs => (hall hs).1) hnoted.1 hpkt env
  | writeVmsg w => exact (writeVmsg_inv h rfl w).mono fun _ h => h.holds rfl
  | writeConnectionClose w => exact writeConnectionClose_holds h rfl w
  | handleExpiry env => exact (handleExpiry_inv h env).mono fun _ h => h.holds rfl
  | pmtudProgress payloadlen finished => exact (pmtudProgress_inv h payloadlen finished).holds rfl
  | clientHandshakeCompleted preferred token env => exact clientHandshakeCompleted_holds h rfl preferred token env
  | initiateMigration path disabled env =>
      have hclient : conn.server = false := hallowed
      rw [step, if_neg (Bool.eq_false_iff.mp hclient)]
      exact (initiateMigration_inv h (hserver.symm.trans hclient) path disabled env).mono fun _ h => h.holds rfl
  | initiateImmediateMigration path disabled env =>
      have hclient : conn.server = false := hallowed
      rw [step, if_neg (Bool.eq_false_iff.mp hclient)]
      exact (initiateImmediateMigration_inv h (hserver.symm.trans hclient) path disabled env).mono fun _ h => h.holds rfl

section
variable {server token : Bool} {cid : List UInt8} {first : Path} {settings : Settings} {inputs : List Input}

theorem run_holds (hallowed : Guarded step Allowed (Conn.new server cid first token settings) inputs) :
    Ends (Tolerated server True) (Holds (setup server cid first token inputs))
      (run step (Conn.new server cid first token settings) inputs) := by
  have hmem : Guarded step (fun _ input => input ∈ inputs) (Conn.new server cid first token settings) inputs :=
    Lib.Run.guarded_of_forall (fun _ h _ => h) _
  exact run_ends (s := Conn.new server cid first token settings) (fun _ _ h hguard => step_holds h hguard.1 (setup_notes hguard.2))
    (new_holds server cid first token settings inputs) (hallowed.and hmem)

/-- The path was validated: a server got a token from it, a Handshake packet came from it, or a
PATH_RESPONSE frame with the data of a PATH_CHALLENGE frame that was made for it. -/
def Validated (server token : Bool) (first : Path) (inputs : List Input) (conn : Conn) (path : Path) : Prop :=
  ((server && token) = true ∧ path = first ∨ HandshakeFrom inputs path) ∨
    ∃ data, Responded inputs data ∧ (path, data) ∈ conn.challenged

/-- The flag is only set for paths that were validated, wherever the connection ID is, and only those
are in the history. -/
theorem run_flagged {conn : Conn} (hallowed : Guarded step Allowed (Conn.new server cid first token settings) inputs)
    (hrun : run step (Conn.new server cid first token settings) inputs = .ok conn) :
    (∀ dcid, dcid = conn.current ∨ (∃ pv ∈ conn.pv, dcid = pv.dcid ∨ dcid ∈ pv.fallback) ∨ dcid ∈ conn.dtr.bound →
        dcid.validated = true → Validated server token first inputs conn dcid.path) ∧
      ∀ ent ∈ conn.pathHistory, Validated server token first inputs conn ent.path := by
  have hends := run_holds hallowed
  rw [hrun] at hends
  have h : Inv _ conn := hends
  refine ⟨fun dcid hdcid hv => h.core.answered _ ?_, fun ent hent => h.core.answered _ (h.core.history ent hent)⟩
  rcases hdcid with rfl | ⟨pv, hpv, rfl | hfallback⟩ | hbound
  · exact h.core.current hv
  · exact (h.pv pv hpv).dcid hv
  · exact (h.pv pv hpv).fallback dcid hfallback hv
  · exact absurd ((h.core.bound dcid hbound).symm.trans hv) (by decide)

end

def quietEnv : Env :=
  ⟨100, 10, 30, false⟩

def smallSettings : Settings :=
  ⟨7, false, false, []⟩

/-- A call that writes a PATH_CHALLENGE frame when there is one to write, and a short packet otherwise. -/
def writeCall (data : List UInt8) : WriteEnv where
  toEnv := quietEnv
  destlen := 1500
  shaped := 1200
  pacingAllowed := true
  noBudget := false
  aggregate := false
  txKey := true
  remnants := false
  exceedCwnd := false
  stopAfterHandshake := false
  handshakeLen := 1200
  handshakeAckLen := 0
  pktLen := 300
  ackLen := 40
  probeLen := 0
  responseLen := 1200
  challengeLen := 1200
  challengeData := data

/-- A server sends all that it may before the handshake is completed; then the peer moves to another path,
is asked to prove that it is there, and does so once the server has been able to send a large packet. -/
def moveInputs (home away : Path) : List Input :=
  [.readPkt home 1200 ⟨false, false, 0⟩ none quietEnv, .writeVmsg (writeCall [1]), .writeVmsg (writeCall [1]),
    .writeVmsg (writeCall [1]), .writeVmsg (writeCall [1]), .readPkt home 100 ⟨true, true, 0⟩ none quietEnv,
    .readPkt away 200 ⟨false, false, 0⟩ (some ⟨[.newConnectionId ⟨1, 0, [2], [9]⟩, .other], true, true⟩) quietEnv,
    .writeVmsg (writeCall [7]), .writeVmsg (writeCall [8]), .readPkt away 40 ⟨false, false, 0⟩ (some ⟨[.other], true, false⟩) quietEnv,
    .writeVmsg (writeCall [8]), .readPkt away 400 ⟨false, false, 0⟩ (some ⟨[.pathResponse [7]], true, false⟩) quietEnv,
    .writeVmsg (writeCall [5])]

theorem run_flagged_move :
    ∃ conn, run step (Conn.new true [1] ⟨1, 1⟩ false smallSettings) (moveInputs ⟨1, 1⟩ ⟨1, 2⟩) = .ok conn ∧
      conn.current.path = ⟨1, 2⟩ ∧ conn.current.validated = true ∧
      Validated true false ⟨1, 1⟩ (moveInputs ⟨1, 1⟩ ⟨1, 2⟩) conn ⟨1, 2⟩ := by
  have hrun : ∃ conn ∈ (run step (Conn.new true [1] ⟨1, 1⟩ false smallSettings) (moveInputs ⟨1, 1⟩ ⟨1, 2⟩)).toOption,
      conn.current.path = ⟨1, 2⟩ ∧ conn.current.validated = true := by decide +kernel
  obtain ⟨conn, hconn, hpath, hv⟩ := hrun
  have hconn := ok_of_toOption hconn
  have h := (run_flagged (by decide +kernel) hconn).1 conn.current (Or.inl rfl) hv
  exact ⟨conn, hconn, hpath, hv, hpath ▸ h⟩

/-- The exception is real: the peer moves 18 times, each time to a new connection ID, and acknowledges nothing. -/
example : (run step (Conn.new true [1] ⟨1, 1⟩ false smallSettings)
    (.readPkt ⟨1, 1⟩ 1200 ⟨true, true, 0⟩ none quietEnv :: (List.range 18).map fun k =>
      .readPkt ⟨1, k + 2⟩ 100 ⟨false, false, 0⟩
        (some ⟨[.newConnectionId ⟨k + 1, 0, [UInt8.ofNat (k + 2)], [UInt8.ofNat k]⟩, .other], true, true⟩) quietEnv)).map
      (fun _ => ()) = .error (.unexpected 16) := by
  decide +kernel

end Zngtcp2.Migration
