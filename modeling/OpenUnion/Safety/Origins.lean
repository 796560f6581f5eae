import OpenUnion.Code.Origins
import OpenUnion.Interleave.Autocommit

/-!
# Revoked origins

A check reads the row, goes to the network and writes the outcome without looking again.  A
revocation in between is written over.

* `revocation_final`: an origin becomes verified only in a check that has found the token of the
  row it read; and in every run in which no check writes the outcome for an origin that has been
  revoked since the check read it, a revoked origin stays revoked and allows nothing.
* `revoked_verified_again`: a revocation during the proof is lost.
-/

namespace OpenUnion.Origins

open Interleave

abbrev Hist := List (Nat × Executed)

abbrev State := Sys Stmt Stmt.Val Empty String Reply Request World Empty Executed

abbrev Step := Label Stmt Stmt.Val Empty Reply Request Outside

abbrev Pick := Choice Request Outside

/-- The row of the origin has a status. -/
def World.HasStatus (w : World) (id : Nat) (status : OriginStatus) : Prop :=
  ∃ row, w.origins id = some row ∧ row.status = status

/-- The note reads the row of the origin, and finds it pending. -/
def Executed.readsPending (id : Nat) : Executed → Bool
  | ⟨_, .select id', row⟩ => decide (id' = id) && row.any fun row => decide (row.status = .pending)
  | _ => false

/-- The note revokes the origin. -/
def Executed.revokes (id : Nat) : Executed → Bool
  | ⟨_, .setRevoked id', _⟩ => decide (id' = id)
  | _ => false

/-- The notes show a proof for the row that was read. -/
def Proved (id : Nat) (ns : List Executed) : Prop :=
  ∃ q row, ⟨q, .select id, some row⟩ ∈ ns ∧ row.status = .pending ∧
    ⟨q, .prove row.origin row.method row.token, none⟩ ∈ ns

/-- What the notes of a request allow it to execute. -/
def Lawful (q : Request) (ns : List Executed) : Stmt → Prop
  | .setVerified id _ => q = .check id ∧ Proved id ns
  | .setPending id _ => q = .check id ∧ ∃ n ∈ ns, n.readsPending id = true
  | .setRevoked id => q = .revoke id
  | .select _ | .prove _ _ _ | .now => True

/-- When a revocation is final: a check writes its outcome only if nothing has revoked the origin
since the check read the row. -/
def keepsRevoked : Step → Glob World Executed → Bool
  | .event a (.stmt (.setPending id _) _), g | .event a (.stmt (.setVerified id _) _), g =>
      !(since a.pid (Executed.readsPending id) g.hist).any fun e => e.2.revokes id
  | _, _ => true

/-- `org_id` and `origin`. -/
def Origin.key (row : Origin) : Nat × String := (row.orgId, row.origin)

/-- The unique index of `origins`. -/
def World.Unique (w : World) : Prop :=
  ∀ i j row row', w.origins i = some row → w.origins j = some row' → row.key = row'.key → i = j

/-- The token is at the origin, as the method asks. -/
def TokenFound (net : Network) (u : OriginUrl) (token : String) : Prop :=
  (∃ records rec, net.resolveTxt ("_proofwork." ++ u.hostname) = .ok records ∧ rec ∈ records ∧
      includes (String.join rec) token = true) ∨
    (∃ resp text, net.get (u.origin ++ "/.well-known/proofwork-verify.txt") = .ok resp ∧
      resp.ok = true ∧ resp.body = .ok text ∧ includes text token = true) ∨
    ∃ resp name value, net.head (u.origin ++ "/") = .ok resp ∧ resp.ok = true ∧
      resp.headers name = some value ∧ includes value token = true

section Proofs

variable {env : OriginEnv} {net : Network} {u : OriginUrl} {origin method token : String}

theorem found_of_dns (h : proveByDns net u token = none) : TokenFound net u token := by
  unfold proveByDns at h
  split at h
  · cases h
  · rename_i records hrecords
    split_ifs at h with hany
    obtain ⟨rec, hrec, hincludes⟩ := List.any_eq_true.mp hany
    exact Or.inl ⟨records, rec, hrecords, hrec, hincludes⟩

theorem found_of_file (h : proveByFile net u token = none) : TokenFound net u token := by
  unfold proveByFile at h
  split at h
  · cases h
  · rename_i resp hresp
    split_ifs at h with hbad
    split at h
    · cases h
    · rename_i text htext
      split_ifs at h with hincludes
      exact Or.inr (Or.inl ⟨resp, text, hresp, by simpa using hbad, htext, hincludes⟩)

theorem found_of_header (h : proveByHeader net u token = none) : TokenFound net u token := by
  unfold proveByHeader at h
  split at h
  · cases h
  · rename_i resp hresp
    split_ifs at h with hbad
    split at h
    · cases h
    · rename_i value hvalue
      split_ifs at h with hempty hincludes
      have hname : ∃ name, resp.headers name = some value := by
        rw [Option.or_eq_some_iff, Option.or_eq_some_iff] at hvalue
        rcases hvalue with h₁ | ⟨-, h₂ | ⟨-, h₃⟩⟩
        · exact ⟨_, h₁⟩
        · exact ⟨_, h₂⟩
        · exact ⟨_, h₃⟩
      obtain ⟨name, hname⟩ := hname
      exact Or.inr (Or.inr ⟨resp, name, value, hresp, by simpa using hbad, hname, hincludes⟩)

/-- A proof that succeeds has found the token at the origin. -/
theorem found_of_proof (h : verifyOriginProof env net origin method token = none) :
    ∃ u, env.newUrl origin = some u ∧ TokenFound net u token := by
  unfold verifyOriginProof at h
  by_cases hempty : origin = "" ∨ token = ""
  · rw [if_pos hempty] at h
    cases h
  rw [if_neg hempty] at h
  cases hu : env.newUrl origin with
  | none => simp [hu] at h
  | some u =>
      refine ⟨u, rfl, ?_⟩
      cases hpublic : net.hostNotPublic origin with
      | some message =>
          simp only [hu, hpublic] at h
          split_ifs at h
      | none =>
          simp only [hu, hpublic] at h
          split_ifs at h with hprotocol hcredentials hdns hfile hheader
          · exact found_of_dns h
          · exact found_of_file h
          · exact found_of_header h

end Proofs

section Programs

variable {env : OriginEnv} {i id : Nat}

/-- A statement and what follows it. -/
theorem tells_run {β : Type} {q : Request} {s : Stmt} {f : s.Val → Code β}
    {F : β → List Executed → Prop} {ns : List Executed} (hout : Lawful q ns s)
    (hnext : ∀ w, (f (s.result env w)).Tells (originChecks env) ⟨i, q⟩ (Lawful q) F
      (fun _ _ => True) (⟨q, s, s.result env w⟩ :: ns)) :
    ((run s).bind f).Tells (originChecks env) ⟨i, q⟩ (Lawful q) F (fun _ _ => True) ns :=
  ⟨hout, fun _ w => hnext w, trivial⟩

/-- The update of a row ends the request. -/
theorem tells_takeFirst {q : Request} {rec : Option Origin} {ns : List Executed} :
    (takeFirstOrThrow rec).Tells (originChecks env) ⟨i, q⟩ (Lawful q) (fun _ _ => True)
      (fun _ _ => True) ns := by
  cases rec <;> trivial

/-- A check of a pending row. -/
theorem checkPending_tells {row : Origin} (hpending : row.status = .pending)
    {ns : List Executed} (hread : ⟨.check id, .select id, some row⟩ ∈ ns) :
    (checkPending id row).Tells (originChecks env) ⟨i, .check id⟩ (Lawful (.check id))
      (fun _ _ => True) (fun _ _ => True) ns := by
  have hreads : Executed.readsPending id ⟨.check id, .select id, some row⟩ = true := by
    simp [Executed.readsPending, hpending]
  unfold checkPending
  by_cases hmethod : row.method ∉ methods
  · rw [if_pos hmethod]
    exact tells_run ⟨rfl, _, hread, hreads⟩ fun _ => tells_takeFirst
  rw [if_neg hmethod]
  refine tells_run trivial fun w => ?_
  cases hcheck : Stmt.result env w (.prove row.origin row.method row.token) with
  | none =>
      refine tells_run trivial fun w' => tells_run ?_ fun _ => tells_takeFirst
      exact ⟨rfl, .check id, row, by simp [hread], hpending, by simp⟩
  | some reason =>
      exact tells_run ⟨rfl, _, List.mem_cons_of_mem _ hread, hreads⟩ fun _ => tells_takeFirst

/-- Every request keeps to what its notes allow. -/
theorem code_tells (q : Request) :
    q.code.Tells (originChecks env) ⟨i, q⟩ (Lawful q) (fun _ _ => True) (fun _ _ => True) [] := by
  cases q with
  | check id =>
      refine tells_bind.mpr (tells_run trivial fun w => ?_)
      cases hrow : Stmt.result env w (.select id) with
      | none => trivial
      | some row =>
          change (if row.status = .pending then checkPending id row
            else .ret (some row) : Code (Option Origin)).Tells _ _ _ _ _ _
          by_cases hpending : row.status = .pending
          · rw [if_pos hpending]
            exact (checkPending_tells hpending (by simp)).mono (fun _ _ _ => trivial) fun _ _ h => h
          · rw [if_neg hpending]
            trivial
  | revoke id => exact tells_bind.mpr (tells_run rfl fun _ => trivial)

end Programs

section Steps

variable {env : OriginEnv} {w : World} {g : Glob World Executed} {a : Actor Request} {s : Stmt}
  {id : Nat} {status : OriginStatus}

/-- The world after a statement. -/
theorem write_origins (s : Stmt) (w : World) (id : Nat) :
    (s.write w).origins id =
      if s.updates = some id then (w.origins id).map s.set else w.origins id := by
  cases s with
  | select _ | prove _ _ _ | now => simp [Stmt.write, Stmt.updates]
  | setPending id' _ | setVerified id' _ | setRevoked id' =>
      by_cases hid : id' = id
      · subst hid
        simp [Stmt.write, Stmt.updates, World.update]
      · simp [Stmt.write, Stmt.updates, World.update, hid, Ne.symm hid]

/-- A row gets a status by a statement that gives it, or has had it. -/
theorem hasStatus_of_write (h : (s.write w).HasStatus id status) :
    w.HasStatus id status ∨ s.updates = some id ∧ ∀ row : Origin, (s.set row).status = status := by
  obtain ⟨row, hrow, hstatus⟩ := h
  rw [write_origins] at hrow
  by_cases hid : s.updates = some id
  · rw [if_pos hid] at hrow
    obtain ⟨row', hrow', rfl⟩ := Option.map_eq_some_iff.mp hrow
    cases s with
    | select _ | prove _ _ _ | now => exact absurd hid (by simp [Stmt.updates])
    | setPending _ _ | setVerified _ _ | setRevoked _ => exact Or.inr ⟨hid, fun _ => hstatus⟩
  · rw [if_neg hid] at hrow
    exact Or.inl ⟨row, hrow, hstatus⟩

/-- Only one status at a time. -/
theorem HasStatus.unique {status' : OriginStatus} (h : w.HasStatus id status)
    (h' : w.HasStatus id status') : status = status' := by
  obtain ⟨row, hrow, rfl⟩ := h
  obtain ⟨row', hrow', rfl⟩ := h'
  rw [hrow, Option.some.injEq] at hrow'
  rw [hrow']

/-- A pending row that has been read is not revoked until something revokes it. -/
def Unrevoked (g : Glob World Executed) : Prop :=
  ∀ id, HoldsSince (fun n => Executed.readsPending id n = true)
    (fun n => Executed.revokes id n = true) (¬ g.world.HasStatus id .revoked) g.hist

/-- A statement keeps this. -/
theorem Unrevoked.stmt (h : Unrevoked g) (a : Actor Request) (s : Stmt) (busy : Empty → Bool) :
    Unrevoked ((originChecks env).afterStmt a s busy none g) := by
  intro id
  refine (h id).cons (e := (a.pid, ⟨a.req, s, s.result env g.world⟩)) (fun hread => ?_) ?_
  · cases s with
    | select id' =>
        obtain ⟨hid, hpending⟩ := Bool.and_eq_true_iff.mp hread
        obtain rfl := of_decide_eq_true hid
        obtain ⟨row, hrow, hstatus⟩ := (Option.any_eq_true _ _).mp hpending
        exact fun hrevoked => absurd (HasStatus.unique ⟨row, hrow, of_decide_eq_true hstatus⟩ hrevoked)
          (by decide)
    | _ => exact absurd hread (by simp [Executed.readsPending])
  · intro hnot
    by_cases hrevokes : Executed.revokes id ⟨a.req, s, s.result env g.world⟩ = true
    · exact Or.inr hrevokes
    refine Or.inl fun hrevoked => ?_
    obtain hbefore | ⟨hid, hset⟩ := hasStatus_of_write (s := s) (w := g.world) hrevoked
    · exact hnot hbefore
    · have hstatus := hset ⟨0, "", .pending, "", "", none, none⟩
      cases s with
      | setRevoked id' =>
          obtain rfl : id' = id := by simpa [Stmt.updates] using hid
          exact hrevokes (by simp [Executed.revokes])
      | setPending _ _ | setVerified _ _ => exact absurd hstatus (by simp [Stmt.set])
      | select _ | prove _ _ _ | now => exact absurd hid (by simp [Stmt.updates])

/-- A check that is allowed to write finds the origin not revoked. -/
theorem not_revoked_of_allowed (h : Unrevoked g)
    (hread : ∃ n ∈ own a.pid g.hist, n.readsPending id = true)
    (hok : (since a.pid (Executed.readsPending id) g.hist).any (fun e => e.2.revokes id) = false) :
    ¬ g.world.HasStatus id .revoked := by
  obtain ⟨n, earlier, hsplit, hn⟩ := since_of_exists hread
  obtain hnot | ⟨e, he, hrevokes⟩ := h id _ (a.pid, n) earlier hsplit hn
  · exact hnot
  · exact absurd hrevokes (by simpa using List.any_eq_false.mp hok e he)

/-- A proof comes after a read. -/
theorem Proved.read {ns : List Executed} (h : Proved id ns) :
    ∃ n ∈ ns, n.readsPending id = true := by
  obtain ⟨q, row, hread, hpending, -⟩ := h
  exact ⟨_, hread, by simp [Executed.readsPending, hpending]⟩

/-- An allowed statement leaves a revoked origin revoked. -/
theorem revoked_after (h : Unrevoked g) (hout : Lawful a.req (own a.pid g.hist) s)
    (hok : keepsRevoked (.event a (.stmt s (s.result env g.world))) g = true)
    (hrevoked : g.world.HasStatus id .revoked) : (s.write g.world).HasStatus id .revoked := by
  obtain ⟨row, hrow, hstatus⟩ := hrevoked
  by_cases hid : s.updates = some id
  · refine ⟨s.set row, by rw [write_origins, if_pos hid, hrow, Option.map_some], ?_⟩
    cases s with
    | setRevoked _ => rfl
    | setPending id' _ =>
        obtain rfl : id' = id := by simpa [Stmt.updates] using hid
        exact absurd ⟨row, hrow, hstatus⟩
          (not_revoked_of_allowed h hout.2 (by simpa [keepsRevoked] using hok))
    | setVerified id' _ =>
        obtain rfl : id' = id := by simpa [Stmt.updates] using hid
        exact absurd ⟨row, hrow, hstatus⟩
          (not_revoked_of_allowed h hout.2.read (by simpa [keepsRevoked] using hok))
    | select _ | prove _ _ _ | now => exact absurd hid (by simp [Stmt.updates])
  · exact ⟨row, by rw [write_origins, if_neg hid, hrow], hstatus⟩

/-- No statement changes whose row it is, or adds or removes one. -/
theorem key_after (s : Stmt) (w : World) (id : Nat) :
    ((s.write w).origins id).map Origin.key = (w.origins id).map Origin.key := by
  rw [write_origins]
  split_ifs with hid
  · cases w.origins id with
    | none => rfl
    | some row => cases s <;> rfl
  · rfl

end Steps

section Runs

variable {env : OriginEnv} {w : World} {c c' d : State} {cs ds : List Pick} {ch : Pick} {l : Step}
  {ok : Step → Glob World Executed → Bool} {id : Nat}

/-- In every state reached, a pending row that has been read is not revoked until something
revokes it. -/
theorem exec_unrevoked (hrun : (originChecks env).exec ok cs (Sys.start w) = some c) :
    Unrevoked c.glob := by
  refine Machine.exec_autocommit (I := Unrevoked) (fun _ q => code_tells q)
    (fun _ => HoldsSince.nil) (fun l g g' h hstep _ => ?_) hrun
  cases hstep with
  | stmt a s busy _ _ => exact h.stmt a s busy
  | reply _ _ _ _ => exact h
  | env e _ => cases e <;> exact h
  | idle _ _ _ _ => exact h

/-- An allowed step leaves a revoked origin revoked. -/
theorem revoked_of_move (hrun : (originChecks env).exec keepsRevoked cs (Sys.start w) = some c)
    (hmove : (originChecks env).move ch c = some (l, c')) (hok : keepsRevoked l c.glob = true)
    (hrevoked : c.glob.world.HasStatus id .revoked) : c'.glob.world.HasStatus id .revoked := by
  have hstep := Machine.exec_autostep (fun _ q => code_tells q) hrun hmove
  have hunrevoked := exec_unrevoked hrun
  generalize c.glob = g at *
  generalize c'.glob = g' at *
  cases hstep with
  | stmt a s busy _ hout => exact revoked_after hunrevoked hout hok hrevoked
  | reply _ _ _ _ => exact hrevoked
  | env e _ => cases e <;> exact hrevoked
  | idle _ _ _ _ => exact hrevoked

/-- What a step changes of the keys, and of the identifiers: nothing. -/
theorem keys_of_move (hrun : (originChecks env).exec ok cs (Sys.start w) = some c)
    (hmove : (originChecks env).move ch c = some (l, c')) :
    ∀ id, (c'.glob.world.origins id).map Origin.key = (c.glob.world.origins id).map Origin.key := by
  have hstep := Machine.exec_autostep (fun _ q => code_tells q) hrun hmove
  generalize c.glob = g at *
  generalize c'.glob = g' at *
  cases hstep with
  | stmt a s busy _ _ => exact key_after s g.world
  | reply _ _ _ _ => exact fun _ => rfl
  | env e _ => cases e <;> exact fun _ => rfl
  | idle _ _ _ _ => exact fun _ => rfl

/-- A row keeps its organisation and its origin. -/
theorem exec_keys (hrun : (originChecks env).exec ok cs (Sys.start w) = some c) :
    ∀ id, (c.glob.world.origins id).map Origin.key = (w.origins id).map Origin.key := by
  refine Machine.exec_induction (I := fun c => ∀ id,
    (c.glob.world.origins id).map Origin.key = (w.origins id).map Origin.key) (fun _ => rfl) ?_ hrun
  intro _ c₁ ch l c₂ hds hkeys hmove _ id
  rw [keys_of_move hds hmove id, hkeys id]

/-- Two rows of one key are one row. -/
theorem exec_unique (hunique : w.Unique)
    (hrun : (originChecks env).exec ok cs (Sys.start w) = some c) : c.glob.world.Unique := by
  have hopening : ∀ i row, c.glob.world.origins i = some row →
      ∃ row₀, w.origins i = some row₀ ∧ row₀.key = row.key := by
    intro i row hrow
    have hkey := exec_keys hrun i
    rw [hrow, Option.map_some] at hkey
    exact Option.map_eq_some_iff.mp hkey.symm
  intro i j row row' hrow hrow' hkey
  obtain ⟨row₀, hrow₀, hkey₀⟩ := hopening i row hrow
  obtain ⟨row₀', hrow₀', hkey₀'⟩ := hopening j row' hrow'
  exact hunique i j row₀ row₀' hrow₀ hrow₀' (by rw [hkey₀, hkey, hkey₀'])

/-- A row that is not verified does not make `originAllowed` true, if it is the only one of its
organisation and origin. -/
theorem not_allowed_of_revoked {w : World} (hunique : w.Unique) {row : Origin}
    (hrow : w.origins id = some row) (hstatus : row.status = .revoked) {candidate : String}
    (hcandidate : normalizeOrigin env candidate = some row.origin) :
    originAllowed env w row.orgId candidate = false := by
  rw [originAllowed, hcandidate, List.any_eq_false]
  intro i _ hallows
  obtain ⟨row', hrow', hallows⟩ := (Option.any_eq_true _ _).mp hallows
  obtain ⟨horg, hverified, horigin⟩ := of_decide_eq_true hallows
  have hkey : row'.key = row.key := by simp [Origin.key, horg, horigin]
  obtain rfl := hunique i id row' row hrow' hrow hkey
  rw [hrow', Option.some.injEq] at hrow
  rw [hrow, hstatus] at hverified
  cases hverified

/-- A step that makes an origin verified is the write of a check that has found the token. -/
theorem verified_of_move (hrun : (originChecks env).exec ok cs (Sys.start w) = some c)
    (hmove : (originChecks env).move ch c = some (l, c'))
    (hbefore : ¬ c.glob.world.HasStatus id .verified)
    (hafter : c'.glob.world.HasStatus id .verified) :
    ∃ a now row, l = .event a (.stmt (.setVerified id now) row) ∧ a.req = .check id ∧
      Proved id (own a.pid c.glob.hist) := by
  have hstep := Machine.exec_autostep (fun _ q => code_tells q) hrun hmove
  generalize c.glob = g at *
  generalize c'.glob = g' at *
  cases hstep with
  | stmt a s busy _ hout =>
      obtain hold | ⟨hid, hset⟩ := hasStatus_of_write (s := s) (w := g.world) hafter
      · exact absurd hold hbefore
      have hstatus := hset ⟨0, "", .pending, "", "", none, none⟩
      cases s with
      | setVerified id' now =>
          obtain rfl : id' = id := by simpa [Stmt.updates] using hid
          exact ⟨a, now, _, rfl, hout.1, hout.2⟩
      | setPending _ _ | setRevoked _ => exact absurd hstatus (by simp [Stmt.set])
      | select _ | prove _ _ _ | now => exact absurd hid (by simp [Stmt.updates])
  | reply _ _ _ _ => exact absurd hafter hbefore
  | env e _ => cases e <;> exact absurd hafter hbefore
  | idle _ _ _ _ => exact absurd hafter hbefore

/-- **A revocation is final**, in every run in which no check writes its outcome for an origin
that has been revoked since the check read it: a revoked origin stays revoked, its row allows
nothing, and `originAllowed` is false for it.  And in any case an origin becomes verified only in
a check whose proof for the row it read has succeeded. -/
theorem revocation_final (env : OriginEnv) (w : World) (cs : List Pick) (c : State)
    (hrun : (originChecks env).exec keepsRevoked cs (Sys.start w) = some c) (id : Nat) :
    (∀ ch l c', (originChecks env).move ch c = some (l, c') →
      ¬ c.glob.world.HasStatus id .verified → c'.glob.world.HasStatus id .verified →
      ∃ a now row, l = .event a (.stmt (.setVerified id now) row) ∧ a.req = .check id ∧
        Proved id (own a.pid c.glob.hist)) ∧
    (c.glob.world.HasStatus id .revoked →
      ∀ ds d, (originChecks env).exec keepsRevoked ds c = some d →
        ∃ row, d.glob.world.origins id = some row ∧ row.status = .revoked ∧
          (∀ orgId origin, row.allows orgId origin = false) ∧
          (w.Unique → ∀ candidate, normalizeOrigin env candidate = some row.origin →
            originAllowed env d.glob.world row.orgId candidate = false)) := by
  refine ⟨fun ch l c' hmove hbefore hafter => verified_of_move hrun hmove hbefore hafter,
    fun hrevoked ds d hds => ?_⟩
  have hstays : c.glob.world.HasStatus id .revoked → d.glob.world.HasStatus id .revoked :=
    Machine.exec_autocommit_rel
      (r := fun g g' => g.world.HasStatus id .revoked → g'.world.HasStatus id .revoked)
      (fun _ h => h) (fun _ _ _ h h' hrev => h' (h hrev))
      (fun _ _ _ _ _ hcs hmove hok => revoked_of_move hcs hmove hok) hrun hds
  obtain ⟨row, hrow, hstatus⟩ := hstays hrevoked
  refine ⟨row, hrow, hstatus, fun orgId origin => by simp [Origin.allows, hstatus], ?_⟩
  intro hunique candidate hcandidate
  have hall : (originChecks env).exec keepsRevoked (cs ++ ds) (Sys.start w) = some d := by
    rw [Machine.exec_append hrun, hds]
  exact not_allowed_of_revoked (exec_unique hunique hall) hrow hstatus hcandidate

end Runs

section Instances

/-- Origins as they are, for one address. -/
def originEnv : OriginEnv where
  production := false
  newUrl s :=
    if s = "https://shop.example" then some ⟨"https:", "", "", "shop.example", s⟩ else none

/-- The token is in the TXT record of the host. -/
def tokenPublished : Network where
  hostNotPublic _ := none
  resolveTxt name := if name = "_proofwork.shop.example" then .ok [["pw_verify_1"]] else .ok []
  get _ := .error "fetch failed"
  head _ := .error "fetch failed"

/-- One pending origin of organisation 1, whose token is published. -/
def pendingWorld : World where
  ids := [7]
  origins id :=
    if id = 7 then
      some ⟨1, "https://shop.example", .pending, "dns_txt", "pw_verify_1", none, none⟩
    else none
  now := 0
  network := tokenPublished

/-- A check that has ended, and then a revocation. -/
def checkedAndRevoked : List Pick :=
  [.spawn (.check 7), .run 0, .run 0, .run 0, .run 0, .run 0, .spawn (.revoke 7), .run 1, .run 1]

theorem revocation_final_checked :
    ∃ c, (originChecks originEnv).exec keepsRevoked checkedAndRevoked (Sys.start pendingWorld) =
        some c ∧
      originAllowed originEnv c.glob.world 1 "https://shop.example" = false := by
  have h : ((originChecks originEnv).exec keepsRevoked checkedAndRevoked
      (Sys.start pendingWorld)).any (fun c => decide ((c.glob.world.origins 7).any
        fun row => decide (row.status = .revoked ∧ row.key = (1, "https://shop.example")))) = true := by
    decide
  obtain ⟨c, hrun, hrow⟩ := (Option.any_eq_true _ _).mp h
  obtain ⟨row, hrow, hrevoked⟩ := (Option.any_eq_true _ _).mp (of_decide_eq_true hrow)
  obtain ⟨hstatus, hkey⟩ := of_decide_eq_true hrevoked
  refine ⟨c, hrun, ?_⟩
  obtain ⟨row', hrow', -, -, hnot⟩ := (revocation_final originEnv pendingWorld checkedAndRevoked c
    hrun 7).2 ⟨row, hrow, hstatus⟩ [] c rfl
  obtain rfl : row = row' := Option.some.inj (hrow.symm.trans hrow')
  obtain ⟨horg, horigin⟩ := Prod.mk.inj hkey
  have hunique : pendingWorld.Unique := by
    intro i j r r' hr hr' _
    have hseven : ∀ k r, pendingWorld.origins k = some r → k = 7 := by
      intro k r hk
      by_contra hne
      simp [pendingWorld, hne] at hk
    rw [hseven i r hr, hseven j r' hr']
  have hallowed := hnot hunique "https://shop.example" (by
    rw [horigin]
    decide)
  rwa [horg] at hallowed

/-- The origin is revoked while a check is at the network. -/
def revokedDuringProof : List Pick :=
  [.spawn (.check 7), .run 0, .run 0, .spawn (.revoke 7), .run 1, .run 1]

/-- The end of that check. -/
def restOfCheck : List Pick := [.run 0, .run 0, .run 0]

/-- The revoked origin is verified, and allowed, once the check has ended. -/
theorem revoked_verified_again :
    ∃ c d, (originChecks originEnv).exec (fun _ _ => true) revokedDuringProof
        (Sys.start pendingWorld) = some c ∧
      c.glob.world.HasStatus 7 .revoked ∧
      (originChecks originEnv).exec (fun _ _ => true) restOfCheck c = some d ∧
      d.glob.world.HasStatus 7 .verified ∧
      originAllowed originEnv d.glob.world 1 "https://shop.example" = true := by
  have h : ((originChecks originEnv).exec (fun _ _ => true) revokedDuringProof
      (Sys.start pendingWorld)).any (fun c =>
        (c.glob.world.origins 7).any (fun row => decide (row.status = .revoked)) &&
        ((originChecks originEnv).exec (fun _ _ => true) restOfCheck c).any (fun d =>
          (d.glob.world.origins 7).any (fun row => decide (row.status = .verified)) &&
          originAllowed originEnv d.glob.world 1 "https://shop.example")) = true := by
    decide
  obtain ⟨c, hrun, hc⟩ := (Option.any_eq_true _ _).mp h
  obtain ⟨hrevoked, hrest⟩ := Bool.and_eq_true_iff.mp hc
  obtain ⟨d, hd, hverified⟩ := (Option.any_eq_true _ _).mp hrest
  obtain ⟨hstatus, hallowed⟩ := Bool.and_eq_true_iff.mp hverified
  obtain ⟨row, hrow, hrowStatus⟩ := (Option.any_eq_true _ _).mp hrevoked
  obtain ⟨row', hrow', hrowStatus'⟩ := (Option.any_eq_true _ _).mp hstatus
  exact ⟨c, d, hrun, ⟨row, hrow, of_decide_eq_true hrowStatus⟩, hd,
    ⟨row', hrow', of_decide_eq_true hrowStatus'⟩, hallowed⟩

end Instances

end OpenUnion.Origins
