/-
Client assertions against maintenance. A verification checks an assertion, which counts as in time until
the tolerance after its end has passed, and then records it as used; maintenance deletes the records of
assertions that have ended. Within the tolerance, and while a verification is between its check and its
write, a deleted record lets the assertion in again. Where every record outlasts both, no assertion is
accepted twice.
-/
import Keyforge.Deployment
import Keyforge.Lib.Run
import Keyforge.OAuth.PrivateKeyJwt
import Keyforge.Operations.Maintenance
import Keyforge.Paths

namespace Keyforge.Client

open Lib Db OAuth Operations

/-! ## The calls -/

inductive AssertionCall where
  | authenticate (client : ClientRow) (assertion audience : String) (fetched : Option Json)
  | maintenance (scheduledAt batchSize : Nat)

def AssertionCall.code (env : Env) (jose : Jose) : AssertionCall → App Unit
  | .authenticate client assertion audience fetched => verifyPrivateKeyJwt env jose fetched client assertion audience
  | .maintenance scheduledAt batchSize => do
    let _ ← cleanupTerminalRows (scheduledAt - env.terminalDataRetentionDays * SECONDS_PER_DAY) batchSize scheduledAt
    pure ()

/-- Maintenance is for a time that has come, no client's row is deleted, and any storage call may fail. -/
def assertionSystem (env : Env) (jose : Jose) : System AssertionCall Input World (Except Failure Unit) where
  code := fun c => (c.code env jose).run
  allow := fun w _ w' => ∀ id, (w.db.clients.get? id).isSome → (w'.db.clients.get? id).isSome
  arrive := fun P c => match c with
    | .authenticate .. => True
    | .maintenance scheduledAt _ => scheduledAt ≤ P.store.nowSeconds

/-! ## What a step does to an assertion -/

/-- A step records an event. -/
def Records (x : Event) (t : World × World) : Prop :=
  t.2.log = x :: t.1.log

theorem not_records_self {w : World} {x : Event} {dt : Nat} : ¬Records x (w, w.tick dt) :=
  fun h => absurd (congrArg List.length h) (by simp)

theorem Records.eq {x y : Event} {t : World × World} (h : Records x t) (h' : Records y t) : x = y :=
  (List.cons.inj (h.symm.trans h')).1

/-- The assertion is recorded as used. -/
def Recorded (env : Env) (jose : Jose) (clientId assertion : String) (db : Database) : Prop :=
  ∃ jti, (jose.payload assertion).jti = .text jti ∧
    (db.clientAssertionJtis.get? (assertionJtiHash env clientId jti)).isSome

/-- The tolerance after the assertion's end has not passed. -/
def InTime (jose : Jose) (assertion : String) (w : World) : Prop :=
  ∃ exp, (jose.payload assertion).exp = .integer exp ∧ w.nowSeconds < exp + CLIENT_ASSERTION_CLOCK_TOLERANCE_SECONDS

theorem InTime.before {jose : Jose} {assertion : String} {w w' : World} (h : InTime jose assertion w')
    (hnow : w.nowMs ≤ w'.nowMs) : InTime jose assertion w := by
  obtain ⟨exp, hexp, hlt⟩ := h
  have hle : w.nowSeconds ≤ w'.nowSeconds := Nat.div_le_div_right hnow
  exact ⟨exp, hexp, by omega⟩

/-- By now some verification has checked the assertion and has not written yet. -/
def InFlight (clientId assertion : String) (sofar : List (Taken World)) : Prop :=
  ∃ u ∈ sofar, Records (.assertionChecked clientId assertion) (u.before, u.after) ∧
    ∀ v ∈ sofar, v.thread = u.thread → ¬Records (.assertionAccepted clientId assertion) (v.before, v.after) ∧
      ¬Records (.assertionRefused clientId assertion) (v.before, v.after)

/-- The records outlast their assertions: a step that deletes the record of an accepted assertion comes
when the assertion is no longer in time and no verification of it is in flight. -/
def Outlasting (env : Env) (jose : Jose) (steps : List (Taken World)) : Prop :=
  ∀ sofar t later, steps = sofar ++ t :: later → ∀ clientId assertion,
    (∃ u ∈ sofar, Records (.assertionAccepted clientId assertion) (u.before, u.after)) →
    Recorded env jose clientId assertion t.before.db → ¬Recorded env jose clientId assertion t.after.db →
    ¬InTime jose assertion t.after ∧ ¬InFlight clientId assertion sofar

/-! ## The clock -/

/-- The clock goes forward. -/
def clockProtocol (env : Env) (jose : Jose) : Protocol Input World :=
  ⟨fun _ => True, fun _ _ => True, fun w w' => w.nowMs ≤ w'.nowMs, (assertionSystem env jose).allow⟩

theorem clock_clocked (env : Env) (jose : Jose) : Clocked (clockProtocol env jose) where
  ok := ⟨fun _ => trivial, fun _ _ => trivial⟩
  tickInv := fun _ _ => trivial
  tickRely := fun _ _ => trivial
  tickGuar := fun _ _ => Nat.le_add_right _ _
  tickAllow := fun _ h => h
  guarTick := fun _ h => Nat.le_trans (Nat.le_add_right _ _) h

section

variable {env : Env} {jose : Jose}

theorem cleanupTable_keeps_clock {batchSize : Nat} {keys : Database → List String} {remove : List String → Database → Database} :
    ∀ batches, Keeps (clockProtocol env jose) (cleanupTable batchSize keys remove batches)
  | 0 => .pure _
  | batches + 1 => by
    refine .bind (.d1 (clock_clocked env jose) fun w w' _ _ hw' _ => ?_) fun _ => .ite (.pure _)
      (.bind (cleanupTable_keeps_clock batches) fun _ => .pure _)
    subst hw'
    exact ⟨trivial, Nat.le_refl _⟩

theorem runCleanupStatements_keeps_clock {batchSize : Nat} : ∀ statements : List CleanupStatement,
    Keeps (clockProtocol env jose) (runCleanupStatements batchSize statements)
  | [] => .pure _
  | _ :: statements => .bind (cleanupTable_keeps_clock _) fun _ =>
    .bind (runCleanupStatements_keeps_clock statements) fun _ => .pure _

theorem recordAssertion_keeps_clock (row : ClientAssertionJtiRow) (assertion : String) :
    Keeps (clockProtocol env jose) (recordAssertion row assertion) := by
  refine .ioLogged (clock_clocked env jose) (fun w _ _ _ => ⟨trivial, ?_⟩) fun w w' _ _ hw' _ => ⟨trivial, ?_⟩
  · split <;> exact Nat.le_refl _
  · rcases hw' with rfl | rfl
    · exact Nat.le_refl _
    · split <;> exact Nat.le_refl _

theorem assertion_keeps_clock (c : AssertionCall) : Keeps (clockProtocol env jose) (c.code env jose) := by
  have hk := clock_clocked env jose
  cases c with
  | authenticate client assertion audience fetched =>
    refine .bind (.require _ _) fun _ => .bind (.of_quiet hk (.query _)) fun document => ?_
    split
    · exact .throw _
    · refine .bind (.require _ _) fun _ => .bind (.clock hk) fun verifiedAt => ?_
      dsimp only
      split
      · exact .throw _
      · refine .bind (.clockLogged hk fun _ _ _ _ => ⟨trivial, Nat.le_refl _⟩) fun now => ?_
        split
        · exact .throw _
        · refine .bind (recordAssertion_keeps_clock _ _) fun inserted => ?_
          split
          · exact .throw _
          · exact .require _ _
  | maintenance scheduledAt batchSize =>
    exact .bind (runCleanupStatements_keeps_clock _) fun _ => .pure _

end

/-! ## What a verification did -/

/-- The last two steps of a verification that accepted an assertion: it checked the assertion in time, and
its write found no record and left one. -/
def Accepted (env : Env) (jose : Jose) (clientId assertion : String) (tr : Steps) : Prop :=
  ∃ before check write, tr = (before ++ [check]) ++ [write] ∧ (∀ t ∈ before, ∀ x, ¬Records x t) ∧
    Records (.assertionChecked clientId assertion) check ∧ InTime jose assertion check.2 ∧
    Records (.assertionAccepted clientId assertion) write ∧ ¬Recorded env jose clientId assertion write.1.db ∧
    Recorded env jose clientId assertion write.2.db

section

variable {env : Env} {jose : Jose} {payload : JWTPayload} {now : Nat} {assertion jti : String} {exp : Int}

theorem jwtVerify_eq_some {jwks : Json} {options : JWTVerifyOptions}
    (h : jwtVerify jose now assertion jwks options = some payload) : payload = jose.payload assertion := by
  unfold jwtVerify at h
  split at h
  · exact (Option.some.inj h).symm
  · cases h

theorem assertionLifetime_eq_some (h : assertionLifetime now payload = some (exp, jti)) :
    payload.exp = .integer exp ∧ payload.jti = .text jti ∧ now < exp + CLIENT_ASSERTION_CLOCK_TOLERANCE_SECONDS := by
  unfold assertionLifetime at h
  split at h
  · rename_i iat e j hiat hexp hjti
    split at h
    · cases h
    · rename_i hcheck
      obtain ⟨rfl, rfl⟩ := Prod.mk.inj (Option.some.inj h)
      simp only [Bool.or_eq_true, decide_eq_true_eq, not_or] at hcheck
      exact ⟨hexp, hjti, by omega⟩
  · cases h

theorem insertAssertionJti_fresh {row : ClientAssertionJtiRow} {db db' : Database}
    (h : insertAssertionJti row db = some (true, db')) :
    db.clientAssertionJtis.get? row.jtiHash = none ∧ (db'.clientAssertionJtis.get? row.jtiHash).isSome := by
  unfold insertAssertionJti at h
  split at h
  · cases h
  · split at h
    · cases h
    · rename_i hfresh
      have hnone : db.clientAssertionJtis.get? row.jtiHash = none := Option.not_isSome_iff_eq_none.1 hfresh
      cases h
      refine ⟨hnone, ?_⟩
      dsimp only
      rw [Table.get?_insert hnone, if_pos rfl]
      rfl

theorem recordAssertion_ends (row : ClientAssertionJtiRow) (assertion : String) :
    endsE (recordAssertion row assertion) (fun inserted tr => inserted = some true → ∃ write, tr = [write] ∧
      Records (.assertionAccepted row.clientId assertion) write ∧ write.1.db.clientAssertionJtis.get? row.jtiHash = none ∧
      (write.2.db.clientAssertionJtis.get? row.jtiHash).isSome) fun _ _ => True := by
  refine endsE_ioLogged (fun w dt => ?_) fun _ => trivial
  rw [World.tick_db]
  cases hinsert : insertAssertionJti row w.db with
  | none => nofun
  | some r =>
    obtain ⟨inserted, db⟩ := r
    cases inserted with
    | false => nofun
    | true =>
      obtain ⟨hfresh, hset⟩ := insertAssertionJti_fresh hinsert
      exact fun _ => ⟨_, rfl, rfl, hfresh, hset⟩

theorem verify_ends (env : Env) (jose : Jose) (fetched : Option Json) (client : ClientRow) (assertion audience : String) :
    endsE (verifyPrivateKeyJwt env jose fetched client assertion audience)
      (fun _ tr => Accepted env jose client.clientId assertion tr) fun _ _ => True := by
  unfold verifyPrivateKeyJwt
  rw [endsE_bind, endsE_require]
  refine ⟨fun _ => ?_, fun _ => trivial⟩
  rw [endsE_bind]
  -- the keys of the client
  refine endsE_query (fun w₁ dt₁ => ?_) fun _ => trivial
  split
  · trivial
  · rw [endsE_bind, endsE_require]
    refine ⟨fun _ => ?_, fun _ => trivial⟩
    rw [endsE_bind]
    refine endsE_clock fun w₂ dt₂ => ?_
    dsimp only
    split
    · trivial
    · rename_i payload hverified
      obtain rfl := jwtVerify_eq_some hverified
      rw [endsE_bind]
      refine endsE_clockLogged fun w₃ dt₃ => ?_
      -- the claims `exp` and `jti`, checked against the clock
      cases hlife : assertionLifetime (w₃.tick dt₃).nowSeconds (jose.payload assertion) with
      | none => trivial
      | some claims =>
        obtain ⟨exp, jti⟩ := claims
        obtain ⟨hexp, hjti, hlt⟩ := assertionLifetime_eq_some hlife
        dsimp only
        rw [endsE_bind]
        refine endsE_imp (fun inserted tr hrecord => ?_) (fun _ _ _ => trivial) _ (recordAssertion_ends _ _)
        cases inserted with
        | none => trivial
        | some inserted =>
          rw [endsE_require]
          refine ⟨?_, fun _ => trivial⟩
          rintro rfl
          -- the insertion is the step that accepts
          obtain ⟨write, rfl, haccepted, hfresh, hset⟩ := hrecord rfl
          refine ⟨[(w₁, w₁.tick dt₁), (w₂, w₂.tick dt₂)], _, write, rfl, ?_, rfl, ⟨exp, hexp, hlt⟩, haccepted, ?_,
            ⟨jti, hjti, hset⟩⟩
          · intro t ht x
            rcases List.mem_cons.1 ht with rfl | ht
            · exact not_records_self
            · rw [List.mem_singleton.1 ht]
              exact not_records_self
          · rintro ⟨other, hother, hsome⟩
            cases hjti.symm.trans hother
            rw [hfresh] at hsome
            cases hsome

end

/-! ## Runs -/

section

variable {env : Env} {jose : Jose} {w₀ : World} {steps : List (Taken World)}
  {P : Pool AssertionCall Input World (Except Failure Unit)}

theorem clock_run (h : (assertionSystem env jose).Run ⟨w₀, []⟩ steps P) : ∀ t ∈ steps, t.before.nowMs ≤ t.after.nowMs := by
  intro t ht
  have hkeeps : ∀ c : AssertionCall, Keeps (clockProtocol env jose) (c.code env jose) := assertion_keeps_clock
  obtain ⟨-, -, -, -, hnow⟩ := System.Run.guar (I := fun _ => True) (R := fun _ _ => True)
    (G := fun (_ : AssertionCall) (w w' : World) => w.nowMs ≤ w'.nowMs) (fun _ => trivial) (fun _ _ => trivial)
    (fun _ => trivial) (fun c w _ => wp_of_wpE (hkeeps c w trivial)) trivial h t ht
  exact hnow

/-- A call that returned took the steps of its program. -/
theorem accepted_run (h : (assertionSystem env jose).Run ⟨w₀, []⟩ steps P) {i : Nat} {client : ClientRow}
    {assertion audience : String} {fetched : Option Json}
    (hi : P.finished i = some (.authenticate client assertion audience fetched, .ok ())) :
    Accepted env jose client.clientId assertion (stepsOf i steps) := by
  unfold Pool.finished at hi
  split at hi
  · rename_i c r hthread
    cases hi
    exact (h.path hthread).post (verify_ends env jose fetched client assertion audience)
  · cases hi

/-- The step that wrote the record. -/
theorem Accepted.write {i : Nat} {clientId assertion : String} (h : Accepted env jose clientId assertion (stepsOf i steps)) :
    ∃ t ∈ steps, t.thread = i ∧ Records (.assertionAccepted clientId assertion) (t.before, t.after) ∧
      ¬Recorded env jose clientId assertion t.before.db ∧ Recorded env jose clientId assertion t.after.db := by
  obtain ⟨before, check, write, htr, -, -, -, hwrite, hfresh, hset⟩ := h
  obtain ⟨t, ht, hthread, rfl⟩ := mem_stepsOf.1 (htr ▸ List.mem_append_right _ List.mem_cons_self)
  exact ⟨t, ht, hthread, hwrite, hfresh, hset⟩

/-- After one write that accepted an assertion comes no other. -/
theorem accepted_last (h : (assertionSystem env jose).Run ⟨w₀, []⟩ steps P) (hkept : Outlasting env jose steps)
    {clientId assertion : String} {first middle last : List (Taken World)} {u v : Taken World}
    (hsteps : steps = first ++ u :: (middle ++ v :: last))
    (hu : Records (.assertionAccepted clientId assertion) (u.before, u.after))
    (hset : Recorded env jose clientId assertion u.after.db) (hfresh : ¬Recorded env jose clientId assertion v.before.db)
    (hv : Accepted env jose clientId assertion (stepsOf v.thread steps)) : False := by
  have hchain := h.chained
  rw [hsteps] at hchain
  -- in between the record was deleted
  obtain ⟨older, t, newer, rfl, hbefore, hafter, -⟩ := hchain.at.2.at.1.since
    (p := fun w => ¬Recorded env jose clientId assertion w.db) (not_not.2 hset) hfresh
  have hsplit : steps = (first ++ u :: older) ++ t :: (newer ++ v :: last) := by
    rw [hsteps]
    simp
  obtain ⟨hover, hflight⟩ := hkept _ t _ hsplit clientId assertion ⟨u, by simp, hu⟩ (not_not.1 hbefore) hafter
  -- by then the second verification had checked the assertion, or it checks it too late
  obtain ⟨before, check, write, htr, hquiet, hcheck, hintime, -, -, -⟩ := hv
  have hmem : check ∈ stepsOf v.thread steps := by
    rw [htr]
    simp
  obtain ⟨c, hc, hthread, rfl⟩ := mem_stepsOf.1 hmem
  rw [hsplit] at hc
  rcases List.mem_append.1 hc with hc | hc
  · refine hflight ⟨c, hc, hcheck, fun w hw hsame => ?_⟩
    have hw : (w.before, w.after) ∈ before ++ [(c.before, c.after)] := by
      rw [hsplit, stepsOf_append] at htr
      have hlast : stepsOf v.thread (t :: (newer ++ v :: last)) ≠ [] :=
        List.ne_nil_of_mem (mem_stepsOf.2 ⟨v, by simp, rfl, rfl⟩)
      have hstart := congrArg List.dropLast htr
      rw [List.dropLast_append_of_ne_nil hlast, List.dropLast_concat] at hstart
      rw [← hstart]
      exact List.mem_append_left _ (mem_stepsOf.2 ⟨w, hw, hsame.trans hthread, rfl⟩)
    rcases List.mem_append.1 hw with hw | hw
    · exact ⟨hquiet _ hw _, hquiet _ hw _⟩
    · rw [List.mem_singleton.1 hw]
      exact ⟨fun hr => Event.noConfusion (hr.eq hcheck), fun hr => Event.noConfusion (hr.eq hcheck)⟩
  · have hchain := h.chained
    rw [hsplit] at hchain
    rcases List.mem_cons.1 hc with rfl | hc
    · exact hover hintime
    · refine hover (hintime.before ?_)
      refine (hchain.at.2.all (p := fun w => t.after.nowMs ≤ w.nowMs) (fun w hw hle => ?_) (Nat.le_refl _) c hc).2
      exact Nat.le_trans hle (clock_run h w (by rw [hsplit]; simp [hw]))

end

/-- Assertions are single use. In every run of client authentications and maintenance whose records
outlast their assertions, no two verifications accept one assertion of one client. -/
theorem assertion_single_use (env : Env) (jose : Jose) (w₀ : World) (steps : List (Taken World))
    (P : Pool AssertionCall Input World (Except Failure Unit))
    (hrun : (assertionSystem env jose).Run ⟨w₀, []⟩ steps P) (hkept : Outlasting env jose steps) :
    ∀ i j client client' assertion audience audience' fetched fetched',
      P.finished i = some (.authenticate client assertion audience fetched, .ok ()) →
      P.finished j = some (.authenticate client' assertion audience' fetched', .ok ()) →
      client.clientId = client'.clientId → i = j := by
  intro i j client client' assertion audience audience' fetched fetched' hi hj hclient
  have hai := accepted_run hrun hi
  have haj := accepted_run hrun hj
  rw [← hclient] at haj
  obtain ⟨t, ht, rfl, hrecords, hfresh, hset⟩ := hai.write
  obtain ⟨u, hu, rfl, hrecords', hfresh', hset'⟩ := haj.write
  by_contra hne
  obtain ⟨first, rest, hsteps⟩ := List.append_of_mem ht
  rw [hsteps] at hu
  rcases List.mem_append.1 hu with hu | hu
  · -- the other one wrote first
    obtain ⟨earlier, middle, rfl⟩ := List.append_of_mem hu
    have horder : steps = earlier ++ u :: (middle ++ t :: rest) := by
      rw [hsteps]
      simp
    exact accepted_last hrun hkept horder hrecords' hset' hfresh hai
  · rcases List.mem_cons.1 hu with rfl | hu
    · exact hne rfl
    · obtain ⟨middle, last, rfl⟩ := List.append_of_mem hu
      exact accepted_last hrun hkept hsteps hrecords hset hfresh' haj

/-! ## Runs on a small deployment -/

/-- A metadata client with keys of its own. -/
def signedClient : ClientRow :=
  { Deployment.client with
    clientId := "https://client.example.com/metadata", type := .confidential, registrationType := .clientIdMetadata,
    tokenEndpointAuthMethods := [.privateKeyJwt], metadataJwksUri := some "https://client.example.com/jwks" }

def signedWorld : World :=
  { Deployment.world with
    db := { Deployment.database with clients := (∅ : Table ClientRow.clientId).insert signedClient } }

def sampleJwks : Json :=
  .obj [("keys", .arr [.obj [("kty", .str "EC"), ("kid", .str "signing-key"), ("alg", .str "ES256")]])]

/-- Every assertion is signed, and is from second 950 to second 1010. -/
def sampleJose : Jose where
  payload := fun _ => { iat := .integer 950, exp := .integer 1010, jti := .text "jti" }
  accepts := fun _ _ _ => true

def sampleAuthentication : AssertionCall :=
  .authenticate signedClient "assertion" "https://auth.example.com/oauth/token" (some sampleJwks)

/-- A step that succeeds at once. -/
def quick : Input := ⟨0, false, false, fun _ => false⟩

/-- A step that succeeds after eleven seconds. -/
def slow : Input := ⟨11000, false, false, fun _ => false⟩

/-- The client authenticates at second 1000. The assertion comes again, its key set takes until second 1011
to fetch, and maintenance runs then. -/
def replaySchedule : List (System.Move AssertionCall Input) :=
  .arrive sampleAuthentication :: (List.replicate 4 (.run 0 quick) ++ .arrive sampleAuthentication :: .run 1 slow ::
    .arrive (.maintenance 1011 100) :: (List.replicate 9 (.run 2 quick) ++ (List.replicate 3 (.run 1 quick) ++ [])))

theorem clients_kept {w w' : World} (h : decide (w.db.clients.rows = w'.db.clients.rows) = true) (id : String)
    (hid : (w.db.clients.get? id).isSome) : (w'.db.clients.get? id).isSome := by
  unfold Table.get? at hid ⊢
  rw [← of_decide_eq_true h]
  exact hid

theorem returned_of_isOk {P : Pool AssertionCall Input World (Except Failure Unit)} {i : Nat} {c : AssertionCall}
    (hcall : (P.threads[i]?).map (·.1) = some c) (hok : (P.finished i).any (·.2.isOk) = true) :
    P.finished i = some (c, .ok ()) := by
  unfold Pool.finished at hok ⊢
  split at hok
  · rename_i c' r hi
    rw [hi] at hcall
    cases hcall
    cases r with
    | error x => cases hok
    | ok a => rfl
  · cases hok

/-- One assertion is accepted twice: maintenance deleted its record within the tolerance after its end. -/
theorem assertion_accepted_twice :
    let P := (assertionSystem Deployment.env sampleJose).moves ⟨signedWorld, []⟩ replaySchedule
    (assertionSystem Deployment.env sampleJose).Reach ⟨signedWorld, []⟩ P ∧
      P.finished 0 = some (sampleAuthentication, .ok ()) ∧ P.finished 1 = some (sampleAuthentication, .ok ()) := by
  refine ⟨System.reach_moves replaySchedule ?_, returned_of_isOk rfl (by decide +kernel), returned_of_isOk rfl (by decide +kernel)⟩
  refine System.allows_of_arrives (fun w w' => decide (w.db.clients.rows = w'.db.clients.rows)) (fun w e w' h => clients_kept h)
    replaySchedule ?_ (by decide +kernel)
  exact ⟨trivial, trivial, show 1011 ≤ World.nowSeconds _ by decide +kernel, trivial⟩

/-- A step that succeeds after sixteen seconds. -/
def late : Input := ⟨16000, false, false, fun _ => false⟩

/-- The client authenticates, and the assertion comes again at once. Sixteen seconds later maintenance deletes the
record of it, and then it comes a third time. -/
def endedSchedule : List (System.Move AssertionCall Input) :=
  List.flatten [[.arrive sampleAuthentication], List.replicate 4 (.run 0 quick),
    [.arrive sampleAuthentication], List.replicate 3 (.run 1 quick), [.run 1 late],
    [.arrive (.maintenance 1016 100)], List.replicate 9 (.run 2 quick),
    [.arrive sampleAuthentication], List.replicate 4 (.run 3 quick)]

instance (x : Event) (t : World × World) : Decidable (Records x t) :=
  inferInstanceAs (Decidable (t.2.log = x :: t.1.log))

/-- Every check so far was followed by its write. -/
def allWritten (sofar : List (Taken World)) : Bool :=
  sofar.all fun u => match u.after.log.head? with
    | some (.assertionChecked clientId assertion) => sofar.any fun v => v.thread = u.thread ∧
        (Records (.assertionAccepted clientId assertion) (v.before, v.after) ∨
          Records (.assertionRefused clientId assertion) (v.before, v.after))
    | _ => true

theorem not_inFlight_of_allWritten {sofar : List (Taken World)} (h : allWritten sofar = true) (clientId assertion : String) :
    ¬InFlight clientId assertion sofar := by
  rintro ⟨u, hu, hchecked, hpending⟩
  have hwritten := List.all_eq_true.1 h u hu
  rw [show u.after.log.head? = some (.assertionChecked clientId assertion) from congrArg List.head? hchecked] at hwritten
  obtain ⟨v, hv, hvu⟩ := List.any_eq_true.1 hwritten
  obtain ⟨hthread, hwrites⟩ := of_decide_eq_true hvu
  exact hwrites.elim (hpending v hv hthread).1 (hpending v hv hthread).2

/-- Each further step keeps the records, or comes after the end of every assertion with nothing in flight. -/
def outlastingTest (finish : Nat) : List (Taken World) → List (Taken World) → Bool
  | _, [] => true
  | sofar, t :: later => (t.before.db.clientAssertionJtis.rows.all (t.after.db.clientAssertionJtis.rows.contains ·) ||
      (finish ≤ t.after.nowSeconds && allWritten sofar)) && outlastingTest finish (sofar ++ [t]) later

theorem outlasting_of_test {env : Env} {jose : Jose} {finish : Nat} {older later : List (Taken World)} {t : Taken World}
    {clientId assertion : String} (hfinish : ∀ w, InTime jose assertion w → w.nowSeconds < finish)
    (hbefore : Recorded env jose clientId assertion t.before.db) (hafter : ¬Recorded env jose clientId assertion t.after.db)
    (sofar : List (Taken World)) (h : outlastingTest finish sofar (older ++ t :: later) = true) :
    ¬InTime jose assertion t.after ∧ ¬InFlight clientId assertion (sofar ++ older) := by
  induction older generalizing sofar with
  | cons u older ih =>
    have hrest := ih (sofar ++ [u]) (Bool.and_eq_true .. |>.mp h).2
    rwa [List.append_assoc] at hrest
  | nil =>
    obtain ⟨hstep, -⟩ := Bool.and_eq_true .. |>.mp h
    rcases Bool.or_eq_true .. |>.mp hstep with hkept | hover
    · -- the record is still there
      obtain ⟨jti, hjti, hsome⟩ := hbefore
      obtain ⟨r, hr⟩ := Option.isSome_iff_exists.1 hsome
      obtain ⟨hmem, hkey⟩ := Table.get?_eq_some.1 hr
      have hstill : r ∈ t.after.db.clientAssertionJtis.rows := List.contains_iff_mem.1 (List.all_eq_true.1 hkept r hmem)
      refine absurd ⟨jti, hjti, ?_⟩ hafter
      rw [Table.get?_eq_some.2 ⟨hstill, hkey⟩]
      rfl
    · obtain ⟨hlate, hwritten⟩ := Bool.and_eq_true .. |>.mp hover
      rw [List.append_nil]
      exact ⟨fun hin => absurd (hfinish _ hin) (Nat.not_lt.2 (of_decide_eq_true hlate)),
        not_inFlight_of_allWritten hwritten clientId assertion⟩

theorem arrives_maintenance {env : Env} {jose : Jose} {P : Pool AssertionCall Input World (Except Failure Unit)}
    {scheduledAt batchSize : Nat} (h : scheduledAt ≤ P.store.nowSeconds) :
    (assertionSystem env jose).arrive P (.maintenance scheduledAt batchSize) := h

/-- The assertion is refused while its record is there, and after its end. -/
theorem assertion_single_use_refused :
    let S := assertionSystem Deployment.env sampleJose
    let P := S.moves ⟨signedWorld, []⟩ endedSchedule
    P.finished 0 = some (sampleAuthentication, .ok ()) ∧ P.finished 1 ≠ some (sampleAuthentication, .ok ()) ∧
      (∃ t ∈ S.taken ⟨signedWorld, []⟩ endedSchedule, t.before.db.clientAssertionJtis.rows.length = 1 ∧
        t.after.db.clientAssertionJtis.rows = []) ∧
      P.finished 3 ≠ some (sampleAuthentication, .ok ()) := by
  intro S P
  have hfirst : P.finished 0 = some (sampleAuthentication, .ok ()) := System.finished_moves (by decide +kernel) rfl
  have hallows : S.Allows ⟨signedWorld, []⟩ endedSchedule := by
    refine System.allows_of_arrives (fun w w' => decide (w.db.clients.rows = w'.db.clients.rows))
      (fun w e w' h => clients_kept h) endedSchedule ?_ (by decide +kernel)
    refine ⟨trivial, trivial, arrives_maintenance ?_, trivial, trivial⟩
    decide +kernel
  have htest : outlastingTest 1015 [] (S.taken ⟨signedWorld, []⟩ endedSchedule) = true := by decide +kernel
  have houtlasting : Outlasting Deployment.env sampleJose (S.taken ⟨signedWorld, []⟩ endedSchedule) := by
    intro sofar t later hsteps clientId assertion _ hbefore hafter
    refine outlasting_of_test ?_ hbefore hafter [] (hsteps ▸ htest)
    rintro w ⟨exp, hexp, hlt⟩
    cases hexp
    rw [CLIENT_ASSERTION_CLOCK_TOLERANCE_SECONDS] at hlt
    omega
  have hsingle := assertion_single_use Deployment.env sampleJose signedWorld _ P (System.run_moves endedSchedule hallows) houtlasting
  refine ⟨hfirst, fun hsecond => ?_, by decide +kernel, fun hthird => ?_⟩
  · exact absurd (hsingle 0 1 _ _ _ _ _ _ _ hfirst hsecond rfl) (by decide)
  · exact absurd (hsingle 0 3 _ _ _ _ _ _ _ hfirst hthird rfl) (by decide)

end Keyforge.Client
