import Zngtcp2.Migration.Inv

namespace Zngtcp2.Migration

open Lib.Run (Ends)

variable {s : Setup} {conn : Conn}

theorem Account.copy {l : Ledger} {owed : Path → Nat} {dcid : Dcid} (h : Account l owed dcid) (fresh : Dcid) :
    Account l owed (dcid.copyCidToken fresh) :=
  ⟨h.left, h.paid⟩

theorem inUse_eq_false {path : Path} (h : conn.inUse path = false) :
    conn.current.path ≠ path ∧ ∀ pv ∈ conn.pv, pv.dcid.path ≠ path ∧ ∀ dcid ∈ pv.fallback, dcid.path ≠ path := by
  rw [Conn.inUse, Bool.or_eq_false_iff, decide_eq_false_iff_not] at h
  refine ⟨h.1, fun pv hpv => ?_⟩
  rw [Option.mem_def.mp hpv, Option.any_some, Bool.or_eq_false_iff, decide_eq_false_iff_not] at h
  refine ⟨h.2.1, fun dcid hdcid => ?_⟩
  rw [Option.mem_def.mp hdcid, Option.any_some, decide_eq_false_iff_not] at h
  exact h.2.2

theorem inUse_false_of_holder {path : Path} (hcurrent : conn.current.path ≠ path) (hholder : conn.pvHolder path = none) :
    conn.inUse path = false := by
  rw [Conn.inUse, Bool.or_eq_false_iff, decide_eq_false_iff_not]
  refine ⟨hcurrent, ?_⟩
  rw [Conn.pvHolder] at hholder
  cases hpv : conn.pv with
  | none => rfl
  | some pv =>
      rw [hpv, Option.bind_some] at hholder
      split at hholder
      · cases hholder
      · rename_i hne
        split at hholder
        · cases hholder
        · rename_i hany
          rw [Option.any_some, Bool.or_eq_false_iff, decide_eq_false_iff_not]
          exact ⟨hne, Bool.eq_false_iff.mpr hany⟩

/-- A connection ID without any bytes is bound to a path that is not in use. -/
theorem Inv.bind {path : Path} {dcid : Dcid} {dtr : Dcidtr} {bound : List Dcid} (h : Inv s conn)
    (hunused : ∀ d ∈ dtr.unused, d ∈ conn.dtr.unused) (hbound : dtr.bound = bound ++ [dcid])
    (hsub : bound.Sublist conn.dtr.bound) (hpath : dcid.path = path)
    (hfresh : dcid.validated = false ∧ dcid.bytesSent = 0 ∧ dcid.bytesRecv = 0) (hfree : ∀ d ∈ conn.dtr.bound, d.path ≠ path)
    (huse : conn.inUse path = false) (hcid : s.server = true → (dcid.cid = [] ↔ s.zerolen = true)) :
    Inv s { conn with dtr := dtr } := by
  obtain ⟨hcurrent, hpvs⟩ := inUse_eq_false huse
  have hwithin : Dcidtr.Within { dtr with bound := bound } conn.dtr := ⟨hunused, hsub.subperm⟩
  have hinv := h.withDtr hwithin
  have hmem : ∀ P : Dcid → Prop, (∀ d ∈ bound, P d) → P dcid → ∀ d ∈ dtr.bound, P d := by
    intro P hP hd
    rw [hbound]
    exact List.forall_mem_append.mpr ⟨hP, List.forall_mem_singleton.mpr hd⟩
  refine ⟨{ hinv.core with
    bound := hmem _ hinv.core.bound hfresh.1
    safe := fun hs => ?_ }, fun pv hpv => { hinv.pv pv hpv with safe := fun hs => ?_ }⟩
  · have hsafe := hinv.core.safe hs
    refine { hsafe with
      bound := hmem _ hsafe.bound ⟨hcid hs, hpath ▸ hcurrent.symm, Account.of_zero hfresh.2.1 hfresh.2.2 hsafe.total⟩
      paths := ?_ }
    rw [hbound, List.map_append, List.map_singleton, List.nodup_append']
    refine ⟨hsafe.paths, List.nodup_singleton _, fun p hp hp' => ?_⟩
    obtain ⟨d, hd, rfl⟩ := List.mem_map.mp hp
    exact hfree d (hsub.subset hd) ((List.mem_singleton.mp hp').trans hpath)
  · have hsafe := (hinv.pv pv hpv).safe hs
    exact { hsafe with
      free := hmem _ hsafe.free (hpath ▸ (hpvs pv hpv).1.symm)
      fallback := fun d hd => ⟨(hsafe.fallback d hd).1, (hsafe.fallback d hd).2.1,
        hmem _ (hsafe.fallback d hd).2.2 (hpath ▸ ((hpvs pv hpv).2 d hd).symm)⟩ }

namespace Dcidtr

theorem bindDcid_ends {dtr : Dcidtr} {server : Bool} {full : Prop} (path : Path) (ts : Nat) (h : dtr.unused ≠ [])
    (hfull : 16 ≤ dtr.retireUnacked.length → full) :
    Ends (Tolerated server full) (fun dtr' => ∃ src bound, src ∈ dtr.unused ∧ (∀ d ∈ dtr'.unused, d ∈ dtr.unused) ∧
      bound.Sublist dtr.bound ∧ dtr'.bound = bound ++ [{ src with boundTs := some ts, path := path }]) (dtr.bindDcid path ts) := by
  rw [bindDcid]
  refine Ends.bind (show Ends _ (fun dtr' => Same dtr' dtr) _ from ?_) fun dtr' hdtr => ?_
  · split
    · exact Same.refl dtr
    · split
      · exact Same.refl dtr
      · exact (onRetire_ends dtr _ hfull).mono fun _ h => h.1
  · split
    · rename_i hnil
      exact absurd (hdtr.unused.symm.trans hnil) h
    · rename_i src unused hcons
      obtain ⟨bound, hsub, heq⟩ := pushBack_eq 4 dtr'.bound { src with boundTs := some ts, path := path }
      have hmem : ∀ d ∈ src :: unused, d ∈ dtr.unused := fun d hd => hdtr.unused ▸ hcons ▸ hd
      exact ⟨src, bound, hmem src List.mem_cons_self, fun d hd => hmem d (List.mem_cons_of_mem src hd), hdtr.bound ▸ hsub, heq⟩

end Dcidtr

theorem bindDcid_inv {full : Prop} (h : Inv s conn) (path : Path) (ts : Nat) (huse : s.server = true → conn.inUse path = false)
    (hfull : 15 ≤ conn.dtr.retireUnacked.length → full) :
    Ends (Tolerated s.server full) (fun r => ∀ conn' ∈ r, Inv s conn' ∧ conn'.current = conn.current) (conn.bindDcid path ts) := by
  rw [Conn.bindDcid]
  refine (assert_ends huse).bind fun _ huse => ?_
  split
  · intro conn' hconn'
    cases hconn'
    exact ⟨h, rfl⟩
  · rename_i hfind
    have hfree := Dcidtr.findBoundDcid_none (Bool.eq_false_iff.mpr hfind)
    split
    · rename_i hcid
      intro conn' hconn'
      cases hconn'
      obtain ⟨bound, hsub, heq⟩ := pushBack_eq 4 conn.dtr.bound { Dcid.init 0 [] none with path := path }
      refine ⟨h.bind (fun _ hd => hd) heq hsub rfl ⟨rfl, rfl, rfl⟩ hfree huse fun hs => ?_, rfl⟩
      exact iff_of_true rfl ((h.core.safe hs).cid.mp hcid)
    · rename_i hcid
      split
      · exact fun _ hconn' => nomatch hconn'
      · rename_i hne
        refine (Dcidtr.bindDcid_ends path ts hne fun h => hfull (by omega)).bind ?_
        rintro dtr ⟨src, bound, hsrc, hunused, hsub, heq⟩ conn' hconn'
        cases hconn'
        refine ⟨h.bind hunused heq hsub rfl (h.core.unused src hsrc) hfree huse fun hs => ?_, rfl⟩
        exact iff_of_false ((h.core.safe hs).unused src hsrc) fun hz => hcid ((h.core.safe hs).cid.mpr hz)

theorem pvHolder_cases {path : Path} {holder : Conn.Holder} (h : conn.pvHolder path = some holder) :
    ∃ pv ∈ conn.pv, holder = .pv ∧ pv.dcid.path = path ∨
      holder = .fallback ∧ ∃ dcid ∈ pv.fallback, dcid.path = path := by
  obtain ⟨pv, hpv, h⟩ := Option.bind_eq_some_iff.mp h
  refine ⟨pv, hpv, ?_⟩
  split at h
  · rename_i heq
    cases h
    exact Or.inl ⟨rfl, heq⟩
  · split at h
    · rename_i hany
      cases h
      obtain ⟨dcid, hdcid, hp⟩ := (Option.any_eq_true _ _).mp hany
      exact Or.inr ⟨rfl, dcid, hdcid, of_decide_eq_true hp⟩
    · cases h

theorem dcidAt_path {path : Path} {holder : Conn.Holder} {dcid : Dcid}
    (hholder : holder = .bound ∨ conn.pvHolder path = some holder) (h : conn.dcidAt path holder = some dcid) :
    dcid.path = path := by
  rcases hholder with rfl | hholder
  · exact (Dcidtr.findBoundDcid_some h).2
  · obtain ⟨pv, hpv, ⟨rfl, hpath⟩ | ⟨rfl, fallback, hfallback, hpath⟩⟩ := pvHolder_cases hholder
    · rw [Conn.dcidAt, Option.mem_def.mp hpv] at h
      cases h
      exact hpath
    · rw [Conn.dcidAt, Option.mem_def.mp hpv, Option.bind_some, Option.mem_def.mp hfallback] at h
      cases h
      exact hpath

theorem growIf_path (path : Path) (r n : Nat) (d : Dcid) : (if d.path = path then d.grow r n else d).path = d.path := by
  split <;> rfl

/-- The connection ID of `holder` is the only one at its path, so the accounts of the others need only
bear what happens at other paths. -/
theorem growAt_inv {path : Path} {r n : Nat} {holder : Conn.Holder} {owed sent : Path → Nat} (h : Inv s conn)
    (hcurrent : s.server = true → Account { conn.ledger with sent := sent } (fun _ => 0) conn.current)
    (hothers : s.server = true → ∀ d, (∀ dcid, conn.dcidAt path holder = some dcid → d.path ≠ dcid.path) →
      Account conn.ledger s.owed d → Account { conn.ledger with sent := sent } owed d)
    (hgrown : s.server = true → ∀ dcid, conn.dcidAt path holder = some dcid →
      Account conn.ledger s.owed dcid → Account { conn.ledger with sent := sent } owed (dcid.grow r n))
    (htotal : s.server = true → ∀ p, p ∉ conn.answered → sent p + owed p ≤ conn.received p * 3) :
    Inv { s with owed := owed } { conn.growAt path r n holder with sent := sent } := by
  cases holder with
  | pv =>
      refine ⟨{ h.core with safe := fun hs => ?_ }, fun pv' hpv' => ?_⟩
      · have hsafe := h.core.safe hs
        refine { hsafe with
          account := hcurrent hs
          bound := fun d hd => { hsafe.bound d hd with account := hothers hs d ?_ (hsafe.bound d hd).account }
          total := htotal hs }
        rintro dcid hat
        obtain ⟨pv, hpv, rfl⟩ := Option.map_eq_some_iff.mp hat
        exact ((h.pv pv hpv).safe hs).free d hd
      · obtain ⟨pv, hpv, rfl⟩ := Option.map_eq_some_iff.mp hpv'
        have hat : conn.dcidAt path .pv = some pv.dcid := Option.map_eq_some_iff.mpr ⟨pv, hpv, rfl⟩
        refine { h.pv pv hpv with safe := fun hs => ?_ }
        have hsafe := (h.pv pv hpv).safe hs
        refine { hsafe with
          account := fun hne => hgrown hs pv.dcid hat (hsafe.account hne)
          fallback := fun d hd => ?_ }
        obtain ⟨haside, hne, hfree⟩ := hsafe.fallback d hd
        refine ⟨{ haside with account := hothers hs d (fun dcid hdcid => ?_) haside.account }, hne, hfree⟩
        cases hat.symm.trans hdcid
        exact hne
  | fallback =>
      refine ⟨{ h.core with safe := fun hs => ?_ }, fun pv' hpv' => ?_⟩
      · have hsafe := h.core.safe hs
        refine { hsafe with
          account := hcurrent hs
          bound := fun d hd => { hsafe.bound d hd with account := hothers hs d ?_ (hsafe.bound d hd).account }
          total := htotal hs }
        rintro dcid hat
        obtain ⟨pv, hpv, hfallback⟩ := Option.bind_eq_some_iff.mp hat
        exact (((h.pv pv hpv).safe hs).fallback dcid hfallback).2.2 d hd
      · obtain ⟨pv, hpv, rfl⟩ := Option.map_eq_some_iff.mp hpv'
        have hat : ∀ d ∈ pv.fallback, conn.dcidAt path .fallback = some d := fun d hd =>
          Option.bind_eq_some_iff.mpr ⟨pv, hpv, hd⟩
        refine { h.pv pv hpv with
          fallback := fun d' hd' => ?_
          safe := fun hs => ?_ }
        · obtain ⟨d, hd, rfl⟩ := Option.map_eq_some_iff.mp hd'
          exact (h.pv pv hpv).fallback d hd
        · have hsafe := (h.pv pv hpv).safe hs
          refine { hsafe with
            account := fun hne => hothers hs pv.dcid (fun dcid hdcid => ?_) (hsafe.account hne)
            fallback := fun d' hd' => ?_
            pmtud := fun hsome => hsafe.pmtud (Option.isSome_map.symm.trans hsome) }
          · obtain ⟨pv', hpv', hfallback⟩ := Option.bind_eq_some_iff.mp hdcid
            cases hpv.symm.trans hpv'
            exact (hsafe.fallback dcid hfallback).2.1.symm
          · obtain ⟨d, hd, rfl⟩ := Option.map_eq_some_iff.mp hd'
            obtain ⟨haside, hne, hfree⟩ := hsafe.fallback d hd
            exact ⟨⟨haside.cid, haside.current, hgrown hs d (hat d hd) haside.account⟩, hne, hfree⟩
  | bound =>
      have hmap : ∀ P : Dcid → Prop, (∀ d ∈ conn.dtr.bound, P (if d.path = path then d.grow r n else d)) →
          ∀ d ∈ conn.dtr.bound.map fun d => if d.path = path then d.grow r n else d, P d :=
        fun P hP => List.forall_mem_map.mpr hP
      have hpaths : (Dcid.path ∘ fun d => if d.path = path then d.grow r n else d) = Dcid.path := funext (growIf_path path r n)
      refine ⟨{ h.core with
        bound := hmap _ fun d hd => ?_
        safe := fun hs => ?_ }, fun pv hpv => { h.pv pv hpv with safe := fun hs => ?_ }⟩
      · have := h.core.bound d hd
        split <;> exact this
      · have hsafe := h.core.safe hs
        refine { hsafe with
          account := hcurrent hs
          bound := hmap _ fun d hd => ?_
          paths := ?_
          total := htotal hs }
        · have haside := hsafe.bound d hd
          split
          · rename_i heq
            exact ⟨haside.cid, haside.current, hgrown hs d (Dcidtr.findBoundDcid_eq hsafe.paths hd heq) haside.account⟩
          · rename_i hne
            refine { haside with account := hothers hs d (fun dcid hat => ?_) haside.account }
            rw [(Dcidtr.findBoundDcid_some hat).2]
            exact hne
        · change ((conn.dtr.bound.map _).map Dcid.path).Nodup
          rw [List.map_map, hpaths]
          exact hsafe.paths
      · have hsafe := (h.pv pv hpv).safe hs
        refine { hsafe with
          free := hmap _ fun d hd => (growIf_path path r n d).symm ▸ hsafe.free d hd
          account := fun hne => hothers hs pv.dcid
            (fun dcid hat => (hsafe.free dcid (Dcidtr.findBoundDcid_some hat).1).symm) (hsafe.account hne)
          fallback := fun d hd => ?_ }
        obtain ⟨haside, hne, hfree⟩ := hsafe.fallback d hd
        refine ⟨{ haside with account := hothers hs d (fun dcid hat => ?_) haside.account }, hne,
          hmap _ fun b hb => (growIf_path path r n b).symm ▸ hfree b hb⟩
        exact (hfree dcid (Dcidtr.findBoundDcid_some hat).1).symm

theorem growAt_sent (conn : Conn) (path : Path) (r n : Nat) (holder : Conn.Holder) :
    { conn.growAt path r n holder with sent := conn.sent } = conn.growAt path r n holder := by
  cases holder <;> rfl

/-- The datagram is entered at the connection ID of its path. -/
theorem Inv.credit {path : Path} {n : Nat} {holder : Conn.Holder} (h : Inv s conn) (howed : s.owed path = n * 3)
    (hholder : holder = .bound ∨ conn.pvHolder path = some holder) :
    Inv { s with owed := fun _ => 0 } (conn.growAt path n 0 holder) := by
  rw [← growAt_sent]
  refine growAt_inv h (fun hs => (h.core.safe hs).account) (fun _ d _ ha => ha.mono fun _ => Nat.zero_le _)
    (fun _ dcid hat ha => ?_) fun hs p hp => ?_
  · exact ha.credit (dcidAt_path hholder hat ▸ howed)
  · exact Nat.le_trans (Nat.le_add_right _ _) ((h.core.safe hs).total p hp)

theorem recvPktFromNewPath_inv {path : Path} {dgramlen : Nat} (h : Inv s conn) (howed : s.owed path = dgramlen * 3)
    (hcurrent : s.server = true → conn.current.path ≠ path) (pathChallengeRecved : Bool) (env : Env) :
    Ends (Tolerated s.server (15 ≤ conn.dtr.retireUnacked.length)) (Inv { s with owed := fun _ => 0 })
      (conn.recvPktFromNewPath path dgramlen pathChallengeRecved env) := by
  rw [Conn.recvPktFromNewPath]
  cases hholder : conn.pvHolder path with
  | some holder => exact h.credit howed (Or.inr hholder)
  | none =>
      simp only
      split
      · refine (bindDcid_inv h path env.ts (fun hs => inUse_false_of_holder (hcurrent hs) hholder) id).bind fun r hr => ?_
        cases r with
        | none => exact h.settle
        | some conn' => exact (hr conn' rfl).1.credit howed (Or.inl rfl)
      · exact h.settle

theorem dcidForNewPath_ends {path : Path} {full : Prop} (h : Inv s conn) (hs : s.server = true) (newCidUsed : Bool) :
    Ends (Tolerated s.server full) (fun r => ∀ p ∈ r, ∃ dtr, dtr.Within conn.dtr ∧
      dtr.retireUnacked = conn.dtr.retireUnacked ∧ p.2 = { conn with dtr := dtr } ∧ p.1.path = path ∧
      p.1.validated = false ∧ (p.1.cid = [] ↔ s.zerolen = true) ∧ Account conn.ledger s.owed p.1 ∧
      ∀ d ∈ dtr.bound, d.path ≠ path) (conn.dcidForNewPath path newCidUsed) := by
  have hsafe := h.core.safe hs
  rw [Conn.dcidForNewPath]
  split
  · rename_i dcid dtr hpop
    obtain ⟨hpath, hunused, hunacked, hperm⟩ := Dcidtr.popBoundDcid_spec hpop
    intro p hp
    cases hp
    have hmem : ∀ d ∈ dcid :: dtr.bound, d ∈ conn.dtr.bound := fun d hd => hperm.subset hd
    have haside := hsafe.bound dcid (hmem dcid List.mem_cons_self)
    refine ⟨dtr, ⟨fun d hd => hunused ▸ hd, (List.sublist_cons_self dcid _).subperm.trans hperm.subperm⟩, hunacked, rfl, hpath,
      h.core.bound dcid (hmem dcid List.mem_cons_self), haside.cid, haside.account, fun d hd heq => ?_⟩
    have hnodup := (hperm.map Dcid.path).nodup_iff.mpr hsafe.paths
    rw [List.map_cons, List.nodup_cons] at hnodup
    exact hnodup.1 (List.mem_map.mpr ⟨d, hd, heq.trans hpath.symm⟩)
  · rename_i hpop
    have hfree := Dcidtr.popBoundDcid_none hpop
    split
    · rename_i hneeded
      split
      · exact fun _ hp => nomatch hp
      · rename_i hne
        refine (Dcidtr.popUnused_ends fun _ => hne).bind ?_
        rintro ⟨src, dtr⟩ ⟨hsrc, hwithin, hbound, hunacked⟩ p hp
        cases hp
        have hcid : s.zerolen ≠ true := fun hz => hneeded.1 (hsafe.cid.mpr hz)
        obtain ⟨hv, hsent, hrecv⟩ := h.core.unused src hsrc
        exact ⟨dtr, hwithin, hunacked, rfl, rfl, hv, iff_of_false (hsafe.unused src hsrc) hcid,
          Account.of_zero hsent hrecv hsafe.total, fun d hd => hfree d (hbound ▸ hd)⟩
    · intro p hp
      cases hp
      exact ⟨conn.dtr, (Dcidtr.Same.refl _).within, rfl, rfl, rfl, rfl, hsafe.cid, Account.of_zero rfl rfl hsafe.total, hfree⟩

/-- The fallback of the new path validation is that of the one before it, or the current connection ID. -/
theorem newPathPv_spec (conn : Conn) (dcid : Dcid) (prefAddrMigration : Bool) (env : Env) :
    ∃ fallback pto pv, conn.newPathPv dcid prefAddrMigration env =
        ({ Pv.new dcid (env.pvTimeoutPto env.pto) false false with fallback := fallback, fallbackPto := pto },
          { conn with pv := pv }) ∧
      ∀ d ∈ fallback, (∃ old ∈ conn.pv, d ∈ old.fallback) ∨ prefAddrMigration = false ∧ d = conn.current := by
  have hcurrent : ∃ fallback pto, (if prefAddrMigration then Pv.new dcid (env.pvTimeoutPto env.pto) false false
        else (Pv.new dcid (env.pvTimeoutPto env.pto) false false).setFallback conn.current env.pto) =
        { Pv.new dcid (env.pvTimeoutPto env.pto) false false with fallback := fallback, fallbackPto := pto } ∧
      ∀ d ∈ fallback, prefAddrMigration = false ∧ d = conn.current := by
    cases prefAddrMigration with
    | true => exact ⟨none, 0, rfl, fun _ hd => nomatch hd⟩
    | false => exact ⟨some conn.current, env.pto, rfl, fun d hd => ⟨rfl, (Option.some.inj hd).symm⟩⟩
  obtain ⟨fallback, pto, heq, hmem⟩ := hcurrent
  rw [Conn.newPathPv]
  split
  · rename_i old hold
    split
    · rename_i fb hfb
      exact ⟨some fb, old.fallbackPto, _, rfl, fun d hd => Or.inl ⟨old, hold, Option.some.inj hd ▸ hfb⟩⟩
    · exact ⟨fallback, pto, conn.pv, by rw [heq], fun d hd => Or.inr (hmem d hd)⟩
  · exact ⟨fallback, pto, conn.pv, by rw [heq], fun d hd => Or.inr (hmem d hd)⟩

theorem PvInv.withPv {pv : Pv} (h : PvInv s conn pv) (pv' : Option Pv) : PvInv s { conn with pv := pv' } pv :=
  { h with safe := fun hs => { h.safe hs with } }

/-- A path validation that there may be ends, and another one may begin. -/
theorem replacePv_inv {full : Prop} (h : Core s conn) {pv : Option Pv} (env : Env)
    (hfull : 15 ≤ conn.dtr.retireUnacked.length → full) (hpv : ∀ p ∈ pv, PvInv s conn p) :
    Ends (Tolerated s.server full) (Inv s)
      ((if conn.pv.isSome then conn.abortPv env.ts else .ok conn) >>= fun conn => .ok { conn with pv := pv }) := by
  refine (Conn.abortIf_ends s.server conn env.ts hfull).bind ?_
  rintro conn' ⟨dtr, hdtr, rfl⟩
  exact ⟨(h.withPv pv).withDtr hdtr.within, fun p hp => ((hpv p hp).withDtr hdtr.within).withPv pv⟩

theorem applyValidatedPath_core (h : Core s conn) (hpath : conn.current.path ∈ conn.answered) (i : Nat) :
    Core s (conn.applyValidatedPath i) :=
  h.withCurrent (fun _ => hpath) fun hs =>
    ⟨(h.safe hs).cid, Account.of_validated rfl hpath, fun d hd => ((h.safe hs).bound d hd).current⟩

theorem migrateToNewPath_ends {dcid : Dcid} {validated : Option Nat} {full : Prop} (h : Core s conn)
    (hstate : s.server = true → s.state ≠ .handshake) (env : Env)
    (hv : dcid.validated = true → dcid.path ∈ conn.answered) (hpath : validated.isSome = true → dcid.path ∈ conn.answered)
    (hsafe : s.server = true → (dcid.cid = [] ↔ s.zerolen = true) ∧ Account conn.ledger (fun _ => 0) dcid ∧
      ∀ d ∈ conn.dtr.bound, d.path ≠ dcid.path) :
    Ends (Tolerated s.server full) (fun conn' => ∃ pathHistory current pmtud,
      conn' = { conn with pathHistory := pathHistory, current := current, pmtud := pmtud } ∧ Core s conn' ∧
      (validated = none → current = dcid ∧ pmtud = false)) (conn.migrateToNewPath dcid validated env) := by
  obtain ⟨pathHistory, heq, hmem⟩ := Conn.addCurrentToHistory_spec h env.ts (validated.getD 0)
  have hcore := ((h.withHistory hmem).withCurrent hv hsafe).withPmtud false hstate
  rw [Conn.migrateToNewPath]
  simp only [heq]
  cases validated with
  | none => exact ⟨pathHistory, dcid, false, rfl, hcore, fun _ => ⟨rfl, rfl⟩⟩
  | some i =>
      refine (Conn.startPmtudIf_ends (fun _ => rfl) env).mono ?_
      rintro conn' ⟨pmtud, rfl⟩
      exact ⟨pathHistory, _, pmtud, rfl, (applyValidatedPath_core hcore (hpath rfl) _).withPmtud pmtud hstate, fun h => nomatch h⟩

theorem startOnNewPath_inv {dcid : Dcid} {full : Prop} (h : Inv s conn) (hs : s.server = true) (hstate : s.state ≠ .handshake)
    (hsettled : ∀ path, s.owed path = 0) (hcurrent : conn.current.path ≠ dcid.path)
    (hfallback : ∀ pv ∈ conn.pv, ∀ d ∈ pv.fallback, d.path ≠ dcid.path) (hv : dcid.validated = false)
    (hcid : dcid.cid = [] ↔ s.zerolen = true) (haccount : Account conn.ledger s.owed dcid)
    (hfree : ∀ d ∈ conn.dtr.bound, d.path ≠ dcid.path) (hfull : 15 ≤ conn.dtr.retireUnacked.length → full)
    (prefAddrMigration : Bool) (env : Env) :
    Ends (Tolerated s.server full) (Inv s) (conn.startOnNewPath dcid prefAddrMigration env) := by
  have howed : s.owed = fun _ => 0 := funext hsettled
  have hflag : dcid.validated = true → dcid.path ∈ conn.answered := fun h => absurd (hv.symm.trans h) (by decide)
  have hnew : s.server = true → (dcid.cid = [] ↔ s.zerolen = true) ∧ Account conn.ledger (fun _ => 0) dcid ∧
      ∀ d ∈ conn.dtr.bound, d.path ≠ dcid.path := fun _ => ⟨hcid, howed ▸ haccount, hfree⟩
  rw [Conn.startOnNewPath]
  cases hfind : conn.findPathHistory dcid.path env.ts with
  | some i =>
      obtain ⟨ent, hent, hpath⟩ := Conn.findPathHistory_mem hfind
      simp only [Option.isSome_some, Bool.or_true, if_true]
      refine (migrateToNewPath_ends h.core (fun _ => hstate) env hflag (fun _ => hpath ▸ h.core.history ent hent) hnew).bind ?_
      rintro conn' ⟨pathHistory, current, pmtud, rfl, hcore, -⟩
      exact replacePv_inv hcore env hfull fun _ hp => nomatch hp
  | none =>
      obtain ⟨fallback, pto, pv, heq, hmem⟩ := newPathPv_spec conn dcid prefAddrMigration env
      have hcore := h.core.withPv pv
      have hsafe := h.core.safe hs
      have hasides : ∀ d ∈ fallback, (∃ old ∈ conn.pv, d ∈ old.fallback) →
          (d.validated = true → d.path ∈ conn.answered) ∧ d.path ≠ dcid.path ∧
          Aside s conn.ledger conn.current.path d ∧ (∀ b ∈ conn.dtr.bound, b.path ≠ d.path) ∧ conn.pmtud = false := by
        rintro d - ⟨old, hold, hd⟩
        have hinv := h.pv old hold
        obtain ⟨haside, -, hb⟩ := (hinv.safe hs).fallback d hd
        exact ⟨hinv.fallback d hd, hfallback old hold d hd, haside, hb, (hinv.safe hs).pmtud (Option.isSome_of_mem hd)⟩
      simp only [heq, Option.isSome_none, Bool.or_false, Bool.false_eq_true, if_false]
      cases prefAddrMigration with
      | true =>
          simp only [Bool.not_true, Bool.false_eq_true, if_false]
          refine replacePv_inv hcore env hfull fun p hp => ?_
          cases hp
          have hold : ∀ d ∈ fallback, ∃ old ∈ conn.pv, d ∈ old.fallback := fun d hd =>
            (hmem d hd).resolve_right fun h => nomatch h.1
          refine ⟨hflag, fun d hd => (hasides d hd (hold d hd)).1, (fun _ hent => nomatch hent), fun _ => ?_⟩
          refine ⟨hstate, fun h => absurd rfl h, hcid, hfree, fun _ => haccount, fun h => absurd h.symm hcurrent,
            fun h => (Bool.false_ne_true h).elim, fun d hd => ?_, fun hsome => ?_⟩
          · obtain ⟨-, hne, haside, hb, -⟩ := hasides d hd (hold d hd)
            exact ⟨haside, hne, hb⟩
          · obtain ⟨d, hd⟩ := Option.isSome_iff_exists.mp hsome
            exact (hasides d hd (hold d hd)).2.2.2.2
      | false =>
          simp only [Bool.not_false, if_true]
          refine (@migrateToNewPath_ends s _ dcid none full hcore (fun _ => hstate) env hflag (fun h => nomatch h) hnew).bind ?_
          rintro conn' ⟨pathHistory, current, pmtud, rfl, hcore', hlast⟩
          obtain ⟨rfl, rfl⟩ := hlast rfl
          refine replacePv_inv hcore' env hfull fun p hp => ?_
          cases hp
          refine ⟨hflag, fun d hd => ?_, (fun _ hent => nomatch hent), fun _ => ?_⟩
          · rcases hmem d hd with hold | ⟨-, rfl⟩
            · exact (hasides d hd hold).1
            · exact h.core.current
          · refine ⟨hstate, fun h => absurd rfl h, hcid, hfree, fun _ => haccount, fun _ h => h,
              fun h => (Bool.false_ne_true h).elim, fun d hd => ?_, fun _ => rfl⟩
            rcases hmem d hd with hold | ⟨-, rfl⟩
            · obtain ⟨-, hne, haside, hb, -⟩ := hasides d hd hold
              exact ⟨⟨haside.cid, hne, haside.account⟩, hne, hb⟩
            · exact ⟨⟨hsafe.cid, hcurrent, howed ▸ hsafe.account⟩, hcurrent, fun b hb => (hsafe.bound b hb).current⟩

theorem migrateBack_inv {pv : Pv} {fallback : Dcid} {dgramlen : Nat} (h : Inv s conn) (hs : s.server = true)
    (hpv : conn.pv = some pv) (hfallback : pv.fallback = some fallback) (howed : s.owed fallback.path = dgramlen * 3) (env : Env) :
    Ends (Tolerated s.server (15 ≤ conn.dtr.retireUnacked.length)) (Inv { s with owed := fun _ => 0 })
      (conn.migrateBack fallback dgramlen env) := by
  have hinv := h.pv pv hpv
  have hsafe := hinv.safe hs
  obtain ⟨haside, -, hfree⟩ := hsafe.fallback fallback hfallback
  have hpmtud := hsafe.pmtud (Option.isSome_of_mem hfallback)
  have hcore := @Core.withCurrent _ _ (fallback.grow dgramlen 0) h.settle.core (hinv.fallback fallback hfallback) fun _ =>
    ⟨haside.cid, haside.account.credit howed, hfree⟩
  rw [Conn.migrateBack]
  have hsome : s.server = true → conn.pv.isSome = true := fun _ => Option.isSome_of_mem hpv
  refine (@Conn.abortPv_ends { conn with current := fallback.grow dgramlen 0 } _ _ hsome env.ts id).bind ?_
  rintro conn' ⟨dtr, hdtr, rfl⟩
  refine (assert_ends fun _ => hpmtud).bind fun _ _ => (Conn.startPmtudIf_ends ?_ env).mono ?_
  · exact fun _ => hpmtud
  · rintro conn'' ⟨pmtud, rfl⟩
    exact (hcore.withPmtud pmtud fun _ => hsafe.state).stopped hdtr.within

theorem recvNonProbingPktOnNewPath_inv {path : Path} {dgramlen : Nat} (h : Inv s conn) (hs : s.server = true)
    (hstate : s.state ≠ .handshake) (howed : s.owed path = dgramlen * 3) (hcurrent : conn.current.path ≠ path)
    (newCidUsed : Bool) (env : Env) :
    Ends (Tolerated s.server (15 ≤ conn.dtr.retireUnacked.length)) (Inv { s with owed := fun _ => 0 })
      (conn.recvNonProbingPktOnNewPath path dgramlen newCidUsed env) := by
  rw [Conn.recvNonProbingPktOnNewPath]
  refine (assert_ends fun _ => h.core.server.trans hs).bind fun _ _ => ?_
  split
  · rename_i fallback hfind
    obtain ⟨pv, hpv, hfilter⟩ := Option.bind_eq_some_iff.mp hfind
    obtain ⟨hfallback, hpath⟩ := Option.filter_eq_some_iff.mp hfilter
    have hpath := of_decide_eq_true hpath
    exact migrateBack_inv h hs hpv hfallback (hpath ▸ howed) env
  · rename_i hnone
    have hfallback : ∀ pv ∈ conn.pv, ∀ d ∈ pv.fallback, d.path ≠ path := by
      intro pv hpv d hd heq
      rw [Option.mem_def.mp hpv, Option.bind_some, Option.mem_def.mp hd] at hnone
      exact absurd hnone (by simp [heq])
    refine (dcidForNewPath_ends h hs newCidUsed).bind fun r hr => ?_
    cases r with
    | none => exact h.settle
    | some p =>
        obtain ⟨dcid, conn'⟩ := p
        obtain ⟨dtr, hdtr, hunacked, heq, hpath, hv, hcid, haccount, hfree⟩ := hr _ rfl
        simp only at heq hpath hv hcid haccount
        subst heq
        subst path
        exact @startOnNewPath_inv _ _ (dcid.grow dgramlen 0) _ (h.settle.withDtr hdtr) hs hstate (fun _ => rfl) hcurrent
          hfallback hv hcid (haccount.credit howed) hfree (fun h => hunacked ▸ h) _ env

/-- The assertion about NGTCP2_ERR_CONN_ID_BLOCKED only fails when many retired sequence numbers are tracked. -/
theorem expectBlocked_inv {x : Except Stop Conn} (h : Ends (Tolerated s.server (15 ≤ conn.dtr.retireUnacked.length)) (Inv s) x) :
    Ends (Tolerated s.server True) (Inv s) (conn.expectBlocked x) := by
  cases x with
  | ok conn' => exact h
  | error stop =>
      cases stop with
      | failed rv => exact fun hs => h hs
      | assertion => exact fun hs => (h hs).elim
      | unexpected unacked => exact fun hs => h hs

theorem recvFromOtherPath_inv {path : Path} {dgramlen : Nat} (h : Inv s conn) (hstate : s.server = true → s.state ≠ .handshake)
    (howed : s.owed path = dgramlen * 3) (pkt : Pkt) (env : Env) :
    Ends (Tolerated s.server True) (Inv { s with owed := fun _ => 0 }) (conn.recvFromOtherPath path dgramlen pkt env) := by
  rw [Conn.recvFromOtherPath]
  split
  · exact h.settle
  · rename_i hnot
    rw [Bool.or_eq_true, not_or, Bool.not_eq_true, Bool.not_eq_false', decide_eq_true_eq] at hnot
    have hs : s.server = true := h.core.server.symm.trans hnot.1
    split
    · exact expectBlocked_inv (s := { s with owed := fun _ => 0 })
        (recvNonProbingPktOnNewPath_inv h hs (hstate hs) howed hnot.2 _ env)
    · exact expectBlocked_inv (s := { s with owed := fun _ => 0 }) (recvPktFromNewPath_inv h howed (fun _ => hnot.2) _ env)

theorem migrateToPv_ends (h : Core s conn) (pv : Pv) (ts : Nat) :
    Ends (Tolerated s.server True) (fun conn' => ∃ dtr pathHistory current, dtr.Same conn.dtr ∧
      (∀ ent ∈ pathHistory, ent.path ∈ conn.answered) ∧
      (current = pv.dcid ∨ current = conn.current ∧ conn.current.path = pv.dcid.path) ∧
      conn' = { conn with dtr := dtr, pathHistory := pathHistory, current := current }) (conn.migrateToPv pv ts) := by
  rw [Conn.migrateToPv]
  split
  · refine (Conn.retireUnless_ends s.server conn.current [pv.dcid.seq] ts fun _ => trivial).bind ?_
    rintro conn' ⟨dtr, ⟨hdtr, -⟩, rfl⟩
    obtain ⟨pathHistory, heq, hmem⟩ := Conn.addCurrentToHistory_spec (h.withDtr hdtr.within) ts 0
    exact ⟨dtr, pathHistory, pv.dcid, hdtr, hmem, Or.inl rfl, by rw [heq]⟩
  · rename_i hsame
    rw [not_or, not_not, not_not] at hsame
    exact ⟨conn.dtr, conn.pathHistory, conn.current, Dcidtr.Same.refl _, h.history, Or.inr ⟨rfl, hsame.2.symm⟩, rfl⟩

theorem pathValidated_ends (h : Core s conn) (pv : Pv) (ent : PvEntry) (env : Env) :
    Ends (Tolerated s.server True) (fun conn' => ∃ dtr pathHistory current pmtud, dtr.Same conn.dtr ∧
      (∀ ent ∈ pathHistory, ent.path ∈ conn.answered) ∧ current.validated = true ∧ current.path = pv.dcid.path ∧
      (current.cid = pv.dcid.cid ∨ current.cid = conn.current.cid) ∧
      (ent.undersized = true → conn.pmtud = false → pmtud = false) ∧
      conn' = { conn with dtr := dtr, pathHistory := pathHistory, current := current, pmtud := pmtud })
      (conn.pathValidated pv ent env) := by
  rw [Conn.pathValidated]
  refine (migrateToPv_ends h pv env.ts).bind ?_
  rintro conn' ⟨dtr, pathHistory, current, hdtr, hmem, hcurrent, rfl⟩
  have hpath : pv.dcid.path = current.path := by
    rcases hcurrent with rfl | ⟨rfl, heq⟩
    · rfl
    · exact heq.symm
  have hcid : current.cid = pv.dcid.cid ∨ current.cid = conn.current.cid :=
    hcurrent.imp (congrArg Dcid.cid) fun h => congrArg Dcid.cid h.1
  refine (assert_ends fun _ => hpath).bind fun _ _ => ?_
  dsimp only
  split
  · exact ⟨dtr, pathHistory, { current with validated := true }, conn.pmtud, hdtr, hmem, rfl, hpath.symm, hcid, fun _ h => h, rfl⟩
  · split
    · exact ⟨dtr, pathHistory, { current with validated := true }, false, hdtr, hmem, rfl, hpath.symm, hcid, fun _ _ => rfl, rfl⟩
    · rename_i hnot
      rw [Conn.startPmtud]
      refine (assert_ends fun _ => rfl).bind fun _ _ => ?_
      exact ⟨dtr, pathHistory, { current with validated := true }, _, hdtr, hmem, rfl, hpath.symm, hcid,
        fun hundersized => absurd hundersized hnot, rfl⟩

/-- What a server knows of a path validation that is over; its fallback is still to be dealt with. -/
structure PvDone (s : Setup) (conn : Conn) (pv : Pv) (ent : PvEntry) : Prop where
  safe : PvSafe s conn { pv with fallback := none }
  current : pv.dcid.path = conn.current.path → conn.current.validated = true
  pmtud : ent.undersized = true → pv.fallback.isSome = true → conn.pmtud = false
  fallback : ∀ dcid ∈ pv.fallback,
    Aside s conn.ledger conn.current.path dcid ∧ dcid.path ≠ pv.dcid.path ∧ ∀ d ∈ conn.dtr.bound, d.path ≠ dcid.path

theorem PvSafe.done {pv : Pv} (h : PvSafe s conn pv) (hdontCare : pv.dontCare = true) (ent : PvEntry) : PvDone s conn pv ent where
  safe := { h with fallback := (fun _ hd => nomatch hd), pmtud := fun h => nomatch h }
  current := fun heq => absurd heq (h.dontCare hdontCare)
  pmtud := fun _ => h.pmtud
  fallback := h.fallback

theorem pathValidated_done {pv : Pv} (h : Core s conn) (hpv : PvInv s conn pv) (hpath : pv.dcid.path ∈ conn.answered)
    (hcare : pv.dontCare = false) (ent : PvEntry) (env : Env) :
    Ends (Tolerated s.server True) (fun conn' => Core s conn' ∧ conn'.answered = conn.answered ∧
      (s.server = true → PvDone s conn' pv ent)) (conn.pathValidated pv ent env) := by
  refine (pathValidated_ends h pv ent env).mono ?_
  rintro conn' ⟨dtr, pathHistory, current, pmtud, hdtr, hmem, hv, hcurrent, hcid, hpmtud, rfl⟩
  have hanswered : current.path ∈ conn.answered := hcurrent ▸ hpath
  refine ⟨?_, rfl, fun hs => ?_⟩
  · refine (((h.withDtr hdtr.within).withHistory hmem).withCurrent (fun _ => hanswered) fun hs => ?_).withPmtud pmtud
      fun hs => (hpv.safe hs).state
    refine ⟨?_, Account.of_validated hv hanswered, fun d hd => ?_⟩
    · rcases hcid with heq | heq
      · rw [heq]
        exact (hpv.safe hs).cid
      · rw [heq]
        exact (h.safe hs).cid
    · rw [hcurrent]
      exact (hpv.safe hs).free d (hdtr.bound ▸ hd)
  · have hsafe := hpv.safe hs
    refine ⟨⟨hsafe.state, hsafe.started, hsafe.cid, fun d hd => hsafe.free d (hdtr.bound ▸ hd),
        fun hne => absurd hcurrent.symm hne, fun _ _ => hv, fun h => absurd (hcare.symm.trans h) (by decide),
        (fun _ hd => nomatch hd), fun h => nomatch h⟩, fun _ => hv,
      fun hundersized hsome => hpmtud hundersized (hsafe.pmtud hsome),
      fun dcid hd => ?_⟩
    obtain ⟨haside, hne, hfree⟩ := hsafe.fallback dcid hd
    exact ⟨⟨haside.cid, fun heq => hne (heq.trans hcurrent), haside.account⟩, hne, fun b hb => hfree b (hdtr.bound ▸ hb)⟩

/-- The next path validation, when the path of this one has been validated. -/
theorem nextPv_ends {pv : Pv} {ent : PvEntry} (hserver : conn.server = s.server) (hpath : pv.dcid.path ∈ conn.answered)
    (hfallback : ∀ d ∈ pv.fallback, d.validated = true → d.path ∈ conn.answered)
    (hdone : s.server = true → PvDone s conn pv ent) (env : Env) :
    Ends (Tolerated s.server True) (fun npv => ∀ p ∈ npv, PvInv s conn p) (conn.nextPv pv ent env) := by
  rw [Conn.nextPv]
  split
  · rename_i hundersized
    refine (assert_ends fun hs => hserver.trans hs).bind fun _ _ p hp => ?_
    have heq : ∃ pto, p = { Pv.new { pv.dcid with validated := true } env.pvTimeout false false with
        fallback := pv.fallback, fallbackPto := pto } := by
      rw [← Option.some.inj hp]
      cases pv.fallback with
      | none => exact ⟨0, rfl⟩
      | some fallback => exact ⟨pv.fallbackPto, rfl⟩
    obtain ⟨pto, rfl⟩ := heq
    refine ⟨fun _ => hpath, hfallback, (fun _ hent => nomatch hent), fun hs => ?_⟩
    have hpv := (hdone hs).safe
    exact ⟨hpv.state, fun h => absurd rfl h, hpv.cid, hpv.free, fun _ => Account.of_validated rfl hpath,
      fun heq _ => (hdone hs).current heq, fun h => (Bool.false_ne_true h).elim, (hdone hs).fallback, (hdone hs).pmtud hundersized⟩
  · intro p hp
    obtain ⟨fallback, hmem, rfl⟩ := Option.map_eq_some_iff.mp hp
    refine ⟨hfallback fallback hmem, (fun _ hd => nomatch hd), (fun _ hent => nomatch hent), fun hs => ?_⟩
    obtain ⟨haside, -, hfree⟩ := (hdone hs).fallback fallback hmem
    exact ⟨(hdone hs).safe.state, fun h => absurd rfl h, haside.cid, hfree, fun _ => haside.account,
      fun heq => absurd heq haside.current, fun _ => haside.current, (fun _ hd => nomatch hd), fun h => nomatch h⟩

/-- A PATH_RESPONSE frame with the data of a PATH_CHALLENGE frame validates the path that it was made for. -/
theorem recvPathResponse_inv (h : Inv s conn) {data : List UInt8} (hdata : s.responded data) (env : Env) :
    Ends (Tolerated s.server True) (Inv s) (conn.recvPathResponse data env) := by
  have h₁ := @Inv.answer _ _ h (conn.answersOf data) fun path hpath => by
    obtain ⟨c, hc, rfl⟩ := List.mem_map.mp hpath
    obtain ⟨hmem, heq⟩ := List.mem_filter.mp hc
    exact Or.inr ⟨data, hdata, of_decide_eq_true heq ▸ hmem⟩
  rw [Conn.recvPathResponse]
  generalize hconn : ({ conn with answered := conn.answersOf data ++ conn.answered } : Conn) = conn₁ at h₁
  have hpvs : conn₁.pv = conn.pv := by rw [← hconn]
  rw [hpvs]
  cases hpv : conn.pv with
  | none => exact h₁
  | some pv =>
      have hinv := h₁.pv pv (hpvs.trans hpv)
      dsimp only
      cases hfind : pv.validate data with
      | none => exact h₁
      | some ent =>
          have hpath : pv.dcid.path ∈ conn₁.answered := by
            have hent := (h.pv pv hpv).ents ent (List.mem_of_find?_eq_some hfind)
            rw [of_decide_eq_true (@List.find?_some _ (fun ent : PvEntry => ent.data = data) _ _ hfind)] at hent
            rw [← hconn]
            refine List.mem_append_left _ (List.mem_map.mpr ⟨_, List.mem_filter.mpr ⟨hent, ?_⟩, rfl⟩)
            exact decide_eq_true rfl
          dsimp only
          refine Ends.bind (show Ends _ (fun conn₂ => Core s conn₂ ∧ conn₂.answered = conn₁.answered ∧
            (s.server = true → PvDone s conn₂ pv ent)) _ from ?_) ?_
          · split
            · rename_i hdontCare
              exact ⟨h₁.core, rfl, fun hs => (hinv.safe hs).done hdontCare ent⟩
            · rename_i hcare
              exact pathValidated_done h₁.core hinv hpath (Bool.eq_false_iff.mpr hcare) ent env
          · rintro conn₂ ⟨hcore, hanswered, hdone⟩
            refine (nextPv_ends hcore.server (hanswered ▸ hpath) (hanswered ▸ hinv.fallback) hdone env).bind fun npv hnpv => ?_
            refine (Conn.stopPv_ends s.server _ env.ts fun _ => trivial).bind ?_
            rintro conn₃ ⟨dtr, hdtr, rfl⟩
            exact ⟨(hcore.withPv npv).withDtr hdtr.within, fun p hp => ((hnpv p hp).withDtr hdtr.within).withPv npv⟩

theorem SeqGaps.push {gaps : Gaptr.Gaps} (h : SeqGaps gaps) {seq : Nat} (hseq : seq < uint64Max - 1) :
    SeqGaps (Gaptr.push gaps seq 1) := by
  have hmem := @Gaptr.mem_push gaps h.sorted seq 1
  have hlast : Gaptr.Mem (Gaptr.push gaps seq 1) (uint64Max - 1) := hmem.mpr ⟨h.last, by omega⟩
  have hinit := @Gaptr.mem_of_mem_initialized _ hlast.ne_nil
  exact ⟨Gaptr.push_sorted h.sorted seq 1, fun x hx => h.lt x (hmem.mp (hinit.mp hx)).1, hinit.mpr hlast⟩

theorem SeqGaps.dropFirstGap {gaps : Gaptr.Gaps} (h : SeqGaps gaps) (hlen : 1 < gaps.length) :
    SeqGaps (Gaptr.dropFirstGap gaps) := by
  cases gaps with
  | nil => exact absurd hlen (Nat.not_lt_zero 1)
  | cons k ks =>
      cases ks with
      | nil => exact absurd hlen (Nat.lt_irrefl 1)
      | cons j js =>
          have hinit := @Gaptr.mem_of_mem_initialized (k :: j :: js) (List.cons_ne_nil _ _)
          have htail := @Gaptr.mem_tail k (j :: js) h.sorted
          have hinit' := @Gaptr.mem_of_mem_initialized (Gaptr.dropFirstGap (k :: j :: js)) (List.cons_ne_nil _ _)
          refine ⟨h.sorted.tail, fun x hx => h.lt x (hinit.mpr (htail.mp (hinit'.mp hx)).1), ?_⟩
          refine hinit'.mpr (htail.mpr ⟨hinit.mp h.last, fun hin => ?_⟩)
          have hkj := (List.pairwise_cons.mp h.sorted.pairwise).1 j List.mem_cons_self
          have hj := h.sorted.lt j (by simp)
          have hmem : Gaptr.Mem (k :: j :: js) j.begin := ⟨j, by simp, Nat.le_refl _, hj⟩
          have := h.lt j.begin (hinit.mpr hmem)
          omega

/-- What the decoder of a NEW_CONNECTION_ID frame checks. -/
def NewConnectionId.Valid (fr : NewConnectionId) : Prop :=
  fr.cid ≠ [] ∧ fr.seq < 2 ^ 62

theorem addNewConnectionId_inv {fr : NewConnectionId} (h : Inv s conn) (hfr : s.server = true → fr.Valid)
    (hcid : conn.current.cid ≠ []) (found : Bool) : Ends (Tolerated s.server True) (Inv s) (conn.addNewConnectionId fr found) := by
  rw [Conn.addNewConnectionId]
  split
  · exact h
  · split
    · rename_i hpushed
      intro hs
      have hle : fr.seq ≤ uint64Max - 1 := by
        have := (hfr hs).2
        have hmax : 2 ^ 62 ≤ uint64Max - 1 := by decide
        omega
      have hgaps := (h.core.safe hs).seqgap
      obtain ⟨b, hb, -⟩ := Gaptr.isPushed_one hgaps.sorted hgaps.last hle
      exact nomatch hpushed.symm.trans hb
    · exact h
    · dsimp only
      have hgaps : ∀ gaps : Gaptr.Gaps, (s.server = true → SeqGaps gaps) → Inv s { conn with seqgap := gaps } := fun gaps hg =>
        ⟨{ h.core with safe := fun hs => { h.core.safe hs with seqgap := hg hs } },
          fun pv hpv => { h.pv pv hpv with safe := fun hs => { (h.pv pv hpv).safe hs with } }⟩
      have hpush : s.server = true → SeqGaps (if 32 < (Gaptr.push conn.seqgap fr.seq 1).length
          then Gaptr.dropFirstGap (Gaptr.push conn.seqgap fr.seq 1) else Gaptr.push conn.seqgap fr.seq 1) := by
        intro hs
        have hlt : fr.seq < uint64Max - 1 := Nat.lt_of_lt_of_le (hfr hs).2 (by decide)
        have hpushed := (h.core.safe hs).seqgap.push hlt
        split
        · rename_i hmany
          exact hpushed.dropFirstGap (by omega)
        · exact hpushed
      have hinv := hgaps _ hpush
      generalize (if 32 < (Gaptr.push conn.seqgap fr.seq 1).length then Gaptr.dropFirstGap (Gaptr.push conn.seqgap fr.seq 1)
        else Gaptr.push conn.seqgap fr.seq 1) = seqgap at hinv
      split
      · exact fun _ => trivial
      · split
        · exact hinv
        · obtain ⟨ys, hsub, heq⟩ := pushBack_eq 8 conn.dtr.unused (Dcid.init fr.seq fr.cid (some fr.token))
          have hmem : ∀ P : Dcid → Prop, (∀ d ∈ conn.dtr.unused, P d) → P (Dcid.init fr.seq fr.cid (some fr.token)) →
              ∀ d ∈ pushBack 8 conn.dtr.unused (Dcid.init fr.seq fr.cid (some fr.token)), P d := by
            intro P hP hd
            rw [heq]
            exact List.forall_mem_append.mpr ⟨fun d hd => hP d (hsub.subset hd), List.forall_mem_singleton.mpr hd⟩
          refine ⟨{ hinv.core with
            unused := hmem _ hinv.core.unused ⟨rfl, rfl, rfl⟩
            safe := fun hs => { hinv.core.safe hs with
              zerolen := fun hz => absurd ((h.core.safe hs).cid.mpr hz) hcid
              unused := hmem _ (hinv.core.safe hs).unused (hfr hs).1 } },
            fun pv hpv => { hinv.pv pv hpv with safe := fun hs => { (hinv.pv pv hpv).safe hs with } }⟩

theorem recvNewConnectionId_inv {fr : NewConnectionId} (h : Inv s conn) (hfr : s.server = true → fr.Valid) :
    Ends (Tolerated s.server True) (Inv s) (conn.recvNewConnectionId fr) := by
  rw [Conn.recvNewConnectionId]
  split
  · exact fun _ => trivial
  rename_i hcid
  split
  · exact fun _ => trivial
  split
  · exact fun _ => trivial
  split
  · exact fun _ => trivial
  split
  · exact fun _ => trivial
  dsimp only
  split
  · refine (Dcidtr.retireInactiveDcidPriorTo_ends conn.dtr fr.retirePriorTo).bind fun dtr hdtr => ?_
    have hinv := h.withDtr hdtr
    have hraised : Inv s { conn with retirePriorTo := fr.retirePriorTo, dtr := dtr } :=
      ⟨{ hinv.core with safe := fun hs => { hinv.core.safe hs with
          zerolen := fun hz => absurd ((h.core.safe hs).cid.mpr hz) hcid } },
        fun pv hpv => { hinv.pv pv hpv with safe := fun hs => { (hinv.pv pv hpv).safe hs with } }⟩
    exact addNewConnectionId_inv hraised hfr hcid _
  · split
    · split
      · exact h
      · refine (Dcidtr.trackRetiredSeq_ends conn.dtr fr.seq fun _ => trivial).bind fun dtr hdtr => ?_
        exact h.withDtr (Dcidtr.Same.within ⟨hdtr.1.unused, hdtr.1.bound⟩)
    · exact addNewConnectionId_inv h hfr hcid _

theorem renew_ends {dcid : Dcid} (hcid : s.server = true → dcid.cid ≠ []) (hne : conn.dtr.unused ≠ []) (ts : Nat) :
    Ends (Tolerated s.server True) (fun r => r.1 ∈ conn.dtr.unused ∧ ∃ dtr, dtr.Within conn.dtr ∧ r.2 = { conn with dtr := dtr })
      (conn.renew dcid ts) := by
  rw [Conn.renew, Conn.retireActiveDcid]
  refine Ends.bind (show Ends _ (fun conn' => ∃ dtr, Dcidtr.Same dtr conn.dtr ∧ conn' = { conn with dtr := dtr }) _ from
    (Dcidtr.retireActiveDcid_ends hcid conn.dtr ts fun _ => trivial).bind fun dtr hdtr => ⟨dtr, hdtr.1, rfl⟩) ?_
  rintro conn' ⟨dtr, hdtr, rfl⟩
  refine (Dcidtr.popUnused_ends fun _ => hdtr.unused ▸ hne).bind ?_
  rintro ⟨fresh, dtr'⟩ ⟨hfresh, hwithin, -⟩
  exact ⟨hdtr.unused ▸ hfresh, dtr', hwithin.trans hdtr.within, rfl⟩

/-- Connection IDs must only be retired when they are not zero-length. -/
theorem Inv.not_zerolen (h : Inv s conn) {seq : Nat} (hseq : ¬conn.retirePriorTo ≤ seq) (hs : s.server = true) :
    s.zerolen ≠ true := by
  intro hz
  have := ((h.core.safe hs).zerolen hz).2
  omega

/-- An unused connection ID can take the place of another one. -/
theorem Inv.fresh_cid (h : Inv s conn) {fresh : Dcid} (hfresh : fresh ∈ conn.dtr.unused) {seq : Nat}
    (hseq : ¬conn.retirePriorTo ≤ seq) (hs : s.server = true) : fresh.cid = [] ↔ s.zerolen = true :=
  iff_of_false ((h.core.safe hs).unused fresh hfresh) (h.not_zerolen hseq hs)

/-- Connection IDs of the path validation get another sequence number, connection ID and token. -/
structure Renews (s : Setup) (f : Dcid → Dcid) : Prop where
  path : ∀ d, (f d).path = d.path
  validated : ∀ d, (f d).validated = d.validated
  account : ∀ {l owed d}, Account l owed d → Account l owed (f d)
  cid : s.server = true → ∀ {d}, (d.cid = [] ↔ s.zerolen = true) → ((f d).cid = [] ↔ s.zerolen = true)

theorem renews_copy {fresh : Dcid} (hcid : s.server = true → (fresh.cid = [] ↔ s.zerolen = true)) :
    Renews s fun dcid => dcid.copyCidToken fresh :=
  ⟨fun _ => rfl, fun _ => rfl, fun h => h.copy fresh, fun hs _ _ => hcid hs⟩

theorem renews_copyIf {fresh : Dcid} (seq : Nat) (hcid : s.server = true → (fresh.cid = [] ↔ s.zerolen = true)) :
    Renews s fun dcid => if dcid.seq = seq then dcid.copyCidToken fresh else dcid := by
  have hcopy := renews_copy hcid
  refine ⟨fun d => ?_, fun d => ?_, fun h => ?_, fun hs _ h => ?_⟩
  · split <;> rfl
  · split <;> rfl
  · split
    · exact hcopy.account h
    · exact h
  · split
    · exact hcid hs
    · exact h

theorem PvInv.renew {pv : Pv} {f g : Dcid → Dcid} (h : PvInv s conn pv) (hf : Renews s f) (hg : Renews s g) :
    PvInv s conn { pv with dcid := f pv.dcid, fallback := pv.fallback.map g } := by
  refine ⟨fun hv => ?_, fun d hd hv => ?_, fun ent hent => ?_, fun hs => ?_⟩
  · exact hf.path pv.dcid ▸ h.dcid ((hf.validated pv.dcid).symm.trans hv)
  · obtain ⟨d, hmem, rfl⟩ := Option.map_eq_some_iff.mp hd
    exact hg.path d ▸ h.fallback d hmem ((hg.validated d).symm.trans hv)
  · exact hf.path pv.dcid ▸ h.ents ent hent
  · have hsafe := h.safe hs
    have hpath := hf.path pv.dcid
    refine ⟨hsafe.state, hsafe.started, hf.cid hs hsafe.cid, hpath ▸ hsafe.free, fun hne => hf.account (hsafe.account ?_),
      fun heq hv => hsafe.validated ?_ ?_, fun hdontCare => hpath ▸ hsafe.dontCare hdontCare, fun d hd => ?_, fun hsome => ?_⟩
    · rwa [hpath] at hne
    · rwa [hpath] at heq
    · exact (hf.validated pv.dcid).symm.trans hv
    · obtain ⟨d, hmem, rfl⟩ := Option.map_eq_some_iff.mp hd
      obtain ⟨haside, hne, hfree⟩ := hsafe.fallback d hmem
      rw [hg.path d, hpath]
      exact ⟨⟨hg.cid hs haside.cid, (hg.path d).symm ▸ haside.current, hg.account haside.account⟩, hne, hfree⟩
    · rw [Option.isSome_map] at hsome
      exact hsafe.pmtud hsome

theorem renews_id : Renews s id :=
  ⟨fun _ => rfl, fun _ => rfl, id, fun _ _ => id⟩

theorem renewFallback_inv (h : Inv s conn) (ts : Nat) : Ends (Tolerated s.server True) (Inv s) (conn.renewFallback ts) := by
  rw [Conn.renewFallback]
  split
  · exact h
  · rename_i pv hpv
    split
    · exact h
    · rename_i fallback hfallback
      split
      · exact h
      · rename_i hseq
        split
        · refine (Conn.abortPv_ends (fun _ => Option.isSome_of_mem hpv) ts fun _ => trivial).mono ?_
          rintro conn' ⟨dtr, hdtr, rfl⟩
          exact h.core.stopped hdtr.within
        · rename_i hne
          have hcid : s.server = true → fallback.cid ≠ [] := fun hs hnil =>
            h.not_zerolen hseq hs ((((h.pv pv hpv).safe hs).fallback fallback hfallback).1.cid.mp hnil)
          refine (renew_ends hcid hne ts).bind ?_
          rintro ⟨fresh, conn'⟩ ⟨hfresh, dtr, hdtr, rfl⟩
          have hinv := h.withDtr hdtr
          refine ⟨hinv.core.withPv _, fun pv' hpv' => ?_⟩
          cases hpv'
          have hrenewed := (hinv.pv pv hpv).renew renews_id (renews_copy (h.fresh_cid hfresh hseq))
          rw [hfallback] at hrenewed
          exact hrenewed.withPv _

theorem renewPv_inv (h : Inv s conn) (ts : Nat) : Ends (Tolerated s.server True) (Inv s) (conn.renewPv ts) := by
  rw [Conn.renewPv]
  split
  · exact h
  · rename_i pv hpv
    split
    · exact renewFallback_inv h ts
    · rename_i hseq
      split
      · refine (Conn.abortPv_ends (fun _ => Option.isSome_of_mem hpv) ts fun _ => trivial).mono ?_
        rintro conn' ⟨dtr, hdtr, rfl⟩
        exact h.core.stopped hdtr.within
      · rename_i hne
        have hcid : s.server = true → pv.dcid.cid ≠ [] := fun hs hnil =>
          h.not_zerolen hseq hs (((h.pv pv hpv).safe hs).cid.mp hnil)
        refine (renew_ends hcid hne ts).bind ?_
        rintro ⟨fresh, conn'⟩ ⟨hfresh, dtr, hdtr, rfl⟩
        have hinv := h.withDtr hdtr
        have hfc := h.fresh_cid hfresh hseq
        refine renewFallback_inv ⟨hinv.core.withPv _, fun pv' hpv' => ?_⟩ ts
        cases hpv'
        exact ((hinv.pv pv hpv).renew (renews_copy hfc) (renews_copyIf pv.dcid.seq hfc)).withPv _

theorem postProcessRecvNewConnectionId_inv (h : Inv s conn) (ts : Nat) :
    Ends (Tolerated s.server True) (Inv s) (conn.postProcessRecvNewConnectionId ts) := by
  rw [Conn.postProcessRecvNewConnectionId]
  split
  · exact renewPv_inv h ts
  · rename_i hseq
    split
    · exact h
    · rename_i hne
      have hcid : s.server = true → conn.current.cid ≠ [] := fun hs hnil =>
        h.not_zerolen hseq hs ((h.core.safe hs).cid.mp hnil)
      refine (renew_ends hcid hne ts).bind ?_
      rintro ⟨fresh, conn'⟩ ⟨hfresh, dtr, hdtr, rfl⟩
      have hinv := h.withDtr hdtr
      have hfc := h.fresh_cid hfresh hseq
      have hcurrent := @Core.withCurrent _ _ (conn.current.copyCidToken fresh) hinv.core hinv.core.current fun hs =>
        ⟨hfc hs, (hinv.core.safe hs).account.copy fresh, fun d hd => ((hinv.core.safe hs).bound d hd).current⟩
      refine renewPv_inv ⟨hcurrent.withPv _, fun pv' hpv' => ?_⟩ ts
      obtain ⟨pv, hpv, rfl⟩ := Option.map_eq_some_iff.mp hpv'
      have hcopy := renews_copyIf (s := s) conn.current.seq hfc
      have hrenewed := ((hinv.pv pv hpv).renew hcopy hcopy).withPv (conn.pv.map fun pv => { pv with
        dcid := if pv.dcid.seq = conn.current.seq then pv.dcid.copyCidToken fresh else pv.dcid
        fallback := pv.fallback.map fun dcid => if dcid.seq = conn.current.seq then dcid.copyCidToken fresh else dcid })
      exact { hrenewed with safe := fun hs => { hrenewed.safe hs with } }

theorem not_server (hclient : s.server = false) : ¬s.server = true :=
  Bool.eq_false_iff.mp hclient

/-- For a client the invariant is about the flags only. -/
theorem newPv_client {dcid : Dcid} (hclient : s.server = false) (hv : dcid.validated = false) (timeout : Nat)
    (dontCare preferredAddr : Bool) : PvInv s conn (Pv.new dcid timeout dontCare preferredAddr) :=
  ⟨fun h => absurd (hv.symm.trans h) (by decide), (fun _ hd => nomatch hd), (fun _ hent => nomatch hent),
    fun hs => absurd hs (not_server hclient)⟩

theorem selectPreferredAddr_inv (h : Inv s conn) (hs : s.server = false) (remoteAddr : Nat) (env : Env) :
    Ends (Tolerated s.server True) (Inv s) (conn.selectPreferredAddr remoteAddr env) := by
  rw [Conn.selectPreferredAddr]
  split
  · exact h
  · rename_i hne
    rw [not_or] at hne
    refine (assert_ends fun h => absurd h (not_server hs)).bind fun _ _ => ?_
    refine (Dcidtr.popUnused_ends fun _ => hne.1).bind ?_
    rintro ⟨dcid, dtr⟩ ⟨hdcid, hwithin, -⟩
    refine ⟨(h.core.withDtr hwithin).withPv _, fun pv hpv => ?_⟩
    cases hpv
    refine newPv_client hs ?_ _ _ _
    exact (h.core.unused dcid hdcid).1

/-- The frame is decoded, and the data of a PATH_RESPONSE frame is noted. -/
def Setup.Admits (s : Setup) : Frame → Prop
  | .newConnectionId fr => s.server = true → fr.Valid
  | .pathResponse data => s.responded data
  | _ => True

theorem recvFrame_inv {fr : Frame} (h : Inv s conn) (hfr : s.Admits fr) (path : Path) (env : Env) :
    Ends (Tolerated s.server True) (Inv s) (conn.recvFrame path env fr) := by
  cases fr with
  | pathChallenge data =>
      rw [Conn.recvFrame, Conn.recvPathChallenge]
      split
      · exact h
      · exact h.withOther conn.handshakeConfirmed _
  | pathResponse data => exact recvPathResponse_inv h hfr env
  | newConnectionId f => exact recvNewConnectionId_inv h hfr
  | ack retired => exact h.withDtr (Dcidtr.foldl_untrackRetiredSeq_same retired conn.dtr).within
  | handshakeDone chosen =>
      rw [Conn.recvFrame]
      unfold Conn.recvHandshakeDone
      split
      · exact fun _ => trivial
      · rename_i hserver
        have hs : s.server = false := by
          rw [← h.core.server]
          exact Bool.eq_false_iff.mpr hserver
        have hconfirmed := h.withOther true conn.pathChallenge
        split
        · exact h
        · cases chosen with
          | none => exact hconfirmed
          | some remoteAddr => exact selectPreferredAddr_inv hconfirmed hs remoteAddr env
  | padding | other => exact h

theorem recvFrames_inv {frames : List Frame} (h : Inv s conn) (hframes : ∀ fr ∈ frames, s.Admits fr) (path : Path) (env : Env) :
    Ends (Tolerated s.server True) (Inv s) (Conn.recvFrames path env frames conn) := by
  induction frames generalizing conn with
  | nil => exact h
  | cons fr frames ih =>
      obtain ⟨hfr, hrest⟩ := List.forall_mem_cons.mp hframes
      exact (recvFrame_inv h hfr path env).bind fun conn' h' => ih h' hrest

theorem recvPkt_inv {path : Path} {dgramlen : Nat} {pkt : Pkt} (h : Inv s conn) (hstate : s.server = true → s.state ≠ .handshake)
    (howed : s.owed path = dgramlen * 3) (hframes : ∀ fr ∈ pkt.frames, s.Admits fr) (env : Env) :
    Ends (Tolerated s.server True) (Inv { s with owed := fun _ => 0 }) (conn.recvPkt path dgramlen pkt env) := by
  rw [Conn.recvPkt]
  refine (recvFrames_inv h hframes path env).bind fun conn₁ h₁ => ?_
  refine Ends.bind (show Ends _ (Inv s) _ from ?_) fun conn₂ h₂ => recvFromOtherPath_inv h₂ hstate howed pkt env
  split
  · exact postProcessRecvNewConnectionId_inv h₁ env.ts
  · exact h₁

theorem Inv.creditCurrent {n : Nat} (h : Inv s conn) (howed : s.owed conn.current.path = n * 3)
    (haccount : s.server = true → Account conn.ledger s.owed conn.current) :
    Inv s { conn with current := conn.current.grow n 0 } := by
  have hcore := @Core.withCurrent _ _ (conn.current.grow n 0) h.core h.core.current fun hs =>
    ⟨(h.core.safe hs).cid, (haccount hs).credit howed, fun d hd => ((h.core.safe hs).bound d hd).current⟩
  exact ⟨hcore, fun pv hpv => { h.pv pv hpv with safe := fun hs => { (h.pv pv hpv).safe hs with } }⟩

/-- The datagram is entered at the current connection ID if it is from its path. -/
theorem recvCpkt_inv {path : Path} {dgramlen : Nat} {pkt : Option Pkt} (h : Inv s conn)
    (hstate : s.server = true → s.state ≠ .handshake) (howed : s.owed path = dgramlen * 3)
    (haccount : s.server = true → Account conn.ledger s.owed conn.current)
    (hpkt : ∀ p ∈ pkt, ∀ fr ∈ p.frames, s.Admits fr) (env : Env) :
    Ends (Tolerated s.server True) (Inv { s with owed := fun _ => 0 }) (conn.recvCpkt path dgramlen pkt env) := by
  have hgrown : Inv s (if conn.current.path = path then { conn with current := conn.current.grow dgramlen 0 } else conn) := by
    split
    · rename_i hpath
      exact h.creditCurrent (hpath ▸ howed) haccount
    · exact h
  unfold Conn.recvCpkt
  generalize (if conn.current.path = path then { conn with current := conn.current.grow dgramlen 0 } else conn) = conn' at hgrown
  dsimp only
  split
  · exact hgrown.settle
  · cases pkt with
    | none => exact hgrown.settle
    | some p => exact recvPkt_inv hgrown hstate howed (hpkt p rfl) env

end Zngtcp2.Migration
