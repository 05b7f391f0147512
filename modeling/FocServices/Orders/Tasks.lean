import FocServices.Orders.Threads

/-!
# Tasks among others

Each task of the order service, run among others, commits nothing but allowed changes.
The transition it writes was decided on a row it has read at some point before; the
compare-and-swap under the row lock lets it through only when that row is still the
stored one.
-/

namespace FocServices.Orders

open Txn Relation

/-! ## The compare-and-swap -/

theorem compareAndSwap_ok {cur : Errand} {t : Transition} (h : compareAndSwap cur t = .ok ()) :
    cur.status = t.source ∧ cur.version = t.expectedVersion ∧
      cur.pendingKey = t.expectedPendingEditKey := by
  unfold compareAndSwap at h
  split at h
  · cases h
  next hstatus =>
  split at h
  · cases h
  next hrest =>
  rw [not_or, not_not, not_not] at hrest
  exact ⟨not_not.mp hstatus, hrest⟩

theorem idempotencyKey_ne_empty (errandID operation : String) (version : ℕ) :
    idempotencyKey errandID operation version ≠ "" := by
  intro h
  have hlength := congrArg (fun s : String => s.toList.length) h
  unfold idempotencyKey at hlength
  split at hlength <;> simp at hlength

/-- Equal keys of stored errands mean that both or neither have a pending edit. -/
theorem isSome_of_pendingKey {e e' : Errand} (he : Regular e) (he' : Regular e')
    (h : e.pendingKey = e'.pendingKey) : e.pendingEdit.isSome = e'.pendingEdit.isSome := by
  unfold Errand.pendingKey at h
  cases hp : e.pendingEdit with
  | none =>
    cases hp' : e'.pendingEdit with
    | none => rfl
    | some p' =>
      rw [hp, hp'] at h
      exact absurd ((he'.pendingEdit p' hp').2.symm.trans h.symm) (idempotencyKey_ne_empty _ _ _)
  | some p =>
    cases hp' : e'.pendingEdit with
    | none =>
      rw [hp, hp'] at h
      exact absurd ((he.pendingEdit p hp).2.symm.trans h) (idempotencyKey_ne_empty _ _ _)
    | some p' => rfl

/-- The condition of a transition fixes the rank of the stored errand. -/
theorem rank_of_compareAndSwap {e cur : Errand} {t : Transition} (he : Regular e)
    (hcur : Regular cur) (hdecides : Decides e t) (hcas : compareAndSwap cur t = .ok ()) :
    cur.rank = e.rank := by
  obtain ⟨ev, actor, input, now, hnext⟩ := hdecides
  obtain ⟨-, hversion, hkey⟩ := compareAndSwap_ok hcas
  have hfor := next_for hnext
  have hsome := isSome_of_pendingKey hcur he (hkey.trans hfor.expectedPendingEditKey)
  unfold Errand.rank
  rw [hversion, hfor.expectedVersion, hsome]

/-- A later row that meets the condition of a transition is the row it was decided on. -/
theorem Succeeds.eq_of_compareAndSwap {e cur : Errand} {t : Transition} (h : Succeeds e cur)
    (he : Regular e) (hcur : Regular cur) (hdecides : Decides e t)
    (hcas : compareAndSwap cur t = .ok ()) : cur = e := by
  have hrank := rank_of_compareAndSwap he hcur hdecides hcas
  rcases h.rank with heq | hlt
  · exact heq
  · omega

/-! ## Jobs that write transitions -/

section Rules

variable {hash : String → ℤ} {ok : Tables → Errand → Transition → Prop}
  (own : Tables → Errand → Transition → Prop)
  {tr : Trail Stmt.Reply Write Lock} {s : Tables} {P : Tables → Tables → Prop}

/-- A transition decided on an earlier row of an errand is applied to that very row, or
the transaction fails. -/
theorem secure_apply {final : Except StoreError Errand → Trail Stmt.Reply Write Lock → Tables → Prop}
    {e : Errand} {t : Transition} (he : Regular e) (hdecides : Decides e t)
    (hP : Ensures hash ok tr s fun s v => v = s ∧ Sane s ∧ (∃ e' ∈ s.errands, Succeeds e e') ∧
      (e ∈ s.errands → own s e t))
    (herr : ∀ err tr s, final (.error err) tr s)
    (h : ∀ tr' s' stored, tr.Extends tr' → Ensures hash ok tr' s' (fun s v =>
      Sane s ∧ Applies hash own tr'.locks e t s v) → final (.ok stored) tr' s') :
    Secure hash ok final (apply t) tr s := by
  have hid : t.errandID = e.id := by
    obtain ⟨ev, actor, input, now, hnext⟩ := hdecides
    exact (next_for hnext).errandID
  unfold apply
  split
  · exact herr _ _ _
  rw [hid, he.canonical]
  refine secure_query fun grantable a ha s₁ hs₁ => ?_
  obtain ⟨hview, hsane, ⟨cur, hcur, hsucceeds⟩, -⟩ := hP.now
  have hfind : s.errandOf e.id = some cur := hsane.keyed.unique.findRow_eq hcur hsucceeds.id
  have hanswer : exec hash grantable (.getErrandForUpdate e.id) s =
      ⟨.ok cur, [], [(.errand e.id, .exclusive)]⟩ := by simp only [exec, hfind]
  rw [answerTo, hview] at ha
  obtain rfl := ha.symm.trans hanswer
  have hlock : ((.errand cur.id, .exclusive) : Lock × Mode) ∈
      (tr.add (.getErrandForUpdate e.id) ⟨.ok cur, [], [(.errand e.id, .exclusive)]⟩).locks := by
    rw [hsucceeds.id]
    exact List.mem_append_right _ (List.mem_singleton_self _)
  have heq : compareAndSwap cur t = .ok () → cur = e := fun hcas =>
    hsucceeds.eq_of_compareAndSwap he (hsane.keyed.regular cur hcur) hdecides hcas
  have hP₁ : Ensures hash ok (tr.add (.getErrandForUpdate e.id)
      ⟨.ok cur, [], [(.errand e.id, .exclusive)]⟩) s₁ fun s v => v = s ∧ Sane s ∧
        cur ∈ s.errands ∧ (e ∈ s.errands → own s e t) := by
    intro s₂ h₂
    obtain ⟨hview₂, hsane₂, -, hok₂⟩ := hP.read rfl hs₁ s₂ h₂
    have hsame : s₂.errandOf cur.id = s.errandOf cur.id :=
      hsane.locked_errand (hs₁.trans h₂) hlock
    rw [hsucceeds.id, hfind] at hsame
    exact ⟨hview₂, hsane₂, (mem_of_findRow hsame).1, hok₂⟩
  refine secure_applyLocked own hP₁ ?_ (fun hcas => heq hcas ▸ hdecides) ?_ hlock herr ?_
  · rintro s v ⟨rfl, hsane, hmem, -⟩
    exact ⟨hsane, hsane, rfl, hmem⟩
  · rintro hcas s v ⟨rfl, -, hmem, hok⟩
    rw [heq hcas] at hmem ⊢
    exact hok hmem
  · intro tr' s' stored hext hcas hP'
    refine h tr' s' stored ((tr.extends_add _ _).trans hext) (hP'.mono ?_)
    rintro s v' ⟨v, ⟨rfl, hsane, -, -⟩, happlies⟩
    exact ⟨hsane, heq hcas ▸ happlies⟩

/-- The errand is new and is written with the rows of its first transition. -/
structure Creates (hash : String → ℤ) (ok : Tables → Errand → Transition → Prop)
    (locks : List (Lock × Mode)) (e : Errand) (t : Transition) (row : Errand) (s s' : Tables) :
    Prop where
  change : Change hash ok locks s s'
  stored : insertParams (t.applyTo e) = .ok row
  newID : ∀ e' ∈ s.errands, e'.id ≠ e.id
  newKey : ∀ e' ∈ s.errands, ¬ (e'.requesterID = e.requesterID ∧
    e'.createIdempotencyKey = e.createIdempotencyKey)
  errands : s'.errands = s.errands ++ [row]
  transitions : s'.transitions = s.transitions ++ [transitionRow e.id e row t]
  outbox : s'.outbox = s.outbox ++ t.outbox

/-- An errand that is looked up by its key. -/
theorem getErrandByCreateKey_cases (grantable : Lock → Mode → Bool) (requesterID key : String)
    (s : Tables) :
    (∃ e ∈ s.errands, e.requesterID = requesterID ∧ e.createIdempotencyKey = key ∧
      exec hash grantable (.getErrandByCreateKey requesterID key) s = ⟨.ok e, [], []⟩) ∨
      exec hash grantable (.getErrandByCreateKey requesterID key) s = ⟨.error .noRows, [], []⟩ := by
  simp only [exec]
  split
  · next e he =>
    have hkey := List.find?_some he
    simp only [decide_eq_true_eq] at hkey
    exact Or.inl ⟨e, List.mem_of_find?_eq_some he, hkey.1, hkey.2, rfl⟩
  · exact Or.inr rfl

/-- An errand is created under its keys, or the errand with its key is returned. -/
theorem secure_create
    {final : Except StoreError (Errand × Bool) → Trail Stmt.Reply Write Lock → Tables → Prop}
    {e : Errand} {t : Transition} {actor : Actor} {input : EventInput} {now : ℤ}
    (hid : Canonical e.id) (hnext : next e .submit actor input now = .ok t) (hok : ∀ s, own s e t)
    (hP : Ensures hash ok tr s fun s v => v = s ∧ Sane s)
    (herr : ∀ err tr s, final (.error err) tr s)
    (hold : ∀ tr' s' existing, tr.Extends tr' → existing.requesterID = e.requesterID →
      existing.createIdempotencyKey = e.createIdempotencyKey →
      Ensures hash ok tr' s' (fun s v => v = s ∧ Sane s ∧ ∃ e' ∈ s.errands, Succeeds existing e') →
        final (.ok (existing, false)) tr' s')
    (hnew : ∀ tr' s' row, tr.Extends tr' → Ensures hash ok tr' s' (fun s v =>
      Sane s ∧ Creates hash own tr'.locks e t row s v) → final (.ok (row, true)) tr' s') :
    Secure hash ok final (create e t) tr s := by
  -- an errand found by the key is still there when the task ends
  have hfound : ∀ tr₁ s₁ s₂ q (a : Answer Stmt.Reply Write Lock q) existing, tr.Extends tr₁ →
      existing ∈ s₁.errands → existing.requesterID = e.requesterID →
      existing.createIdempotencyKey = e.createIdempotencyKey → a.writes = [] →
      Ensures hash ok tr₁ s₁ (fun s v => v = s ∧ Sane s) →
      Disturbed (Commits hash ok) (tr₁.add q a).locks s₁ s₂ →
      final (.ok (existing, false)) (tr₁.add q a) s₂ := by
    intro tr₁ s₁ s₂ q a existing hext hmem hrequester hkey hwrites hP₁ hs₂
    refine hold _ s₂ existing (hext.trans (tr₁.extends_add q a)) hrequester hkey ?_
    intro s₃ h₃
    obtain ⟨hview, hsane⟩ := hP₁.read hwrites hs₂ s₃ h₃
    exact ⟨hview, hsane, hP₁.now.2.succeeds (Disturbed.evolves (hs₂.trans h₃)) hmem⟩
  unfold create
  split
  · exact herr _ _ _
  split
  · exact herr _ _ _
  refine secure_check herr fun row hrow => ?_
  have hst := insertParams_ok hrow
  have hrowID : row.id = e.id := hst.id_eq hid
  have hrequester : row.requesterID = e.requesterID := hst.requesterID
  have hcreateKey : row.createIdempotencyKey = e.createIdempotencyKey := by
    have hkey := insertParams_createKey hrow
    exact hkey
  refine secure_query fun grantable a ha s₁ hs₁ => ?_
  rcases getErrandByCreateKey_cases grantable e.requesterID e.createIdempotencyKey _ with
    ⟨existing, hmem, hreq, hkey, hanswer⟩ | hanswer
  · obtain rfl := ha.symm.trans hanswer
    rw [hP.now.1] at hmem
    exact hfound tr s s₁ _ _ existing (.refl tr) hmem hreq hkey rfl hP hs₁
  obtain rfl := ha.symm.trans hanswer
  have hP₁ := hP.read (q := .getErrandByCreateKey e.requesterID e.createIdempotencyKey)
    (a := ⟨.error .noRows, [], []⟩) rfl hs₁
  have hext₁ := tr.extends_add (.getErrandByCreateKey e.requesterID e.createIdempotencyKey)
    ⟨.error .noRows, [], []⟩
  change Secure hash ok final (checkFence row.details.supplierID e.details.supplierID >>= _) _ _
  rw [Secure, safe_bind]
  refine secure_checkFence hP₁ ?_ (fun err tr s => herr err tr s) ?_
  · rintro s v ⟨rfl, hsane⟩
    exact ⟨hsane, rfl⟩
  intro tr₂ s₂ hext₂ hshared hP₂
  refine secure_query fun grantable a ha s₃ hs₃ => ?_
  obtain ⟨⟨hview, hsane⟩, hopen⟩ := hP₂.now
  rcases insertErrand_answer grantable row with ⟨err, hanswer⟩ | ⟨-, hfreeID, hfreeKey, hanswer⟩
  · obtain rfl := ha.symm.trans hanswer
    cases err with
    | noRows =>
      have hP₃ := (hP₂.mono fun s v hv => hv.1).read (q := .insertErrand row)
        (a := ⟨.error .noRows, [], []⟩) rfl hs₃
      refine secure_query fun grantable a ha s₄ hs₄ => ?_
      rcases getErrandByCreateKey_cases grantable e.requesterID e.createIdempotencyKey _ with
        ⟨existing, hmem, hreq, hkey, hanswer⟩ | hanswer
      · obtain rfl := ha.symm.trans hanswer
        rw [hP₃.now.1] at hmem
        exact hfound _ s₃ s₄ _ _ existing ((hext₁.trans hext₂).trans (tr₂.extends_add _ _)) hmem
          hreq hkey rfl hP₃ hs₄
      · obtain rfl := ha.symm.trans hanswer
        exact herr _ _ _
    | _ => exact herr _ _ _
  obtain rfl := ha.symm.trans hanswer
  have hrows : ∀ r ∈ t.outbox, Canonical r.errandID := by
    intro r hr
    rw [(next_move hnext).errandID_rows r hr]
    exact hid
  rw [hview] at hfreeID hfreeKey
  have hP₃ := hP₂.add hs₃
  set tr₃ := tr₂.add (.insertErrand row) ⟨.ok row, [.insertErrand row],
    [(.createKey row.requesterID row.createIdempotencyKey, .exclusive),
      (.errand row.id, .exclusive)]⟩ with htr₃
  have hkeyLock : ((.createKey row.requesterID row.createIdempotencyKey, .exclusive) : Lock × Mode) ∈
      tr₃.locks := List.mem_append_right _ (by simp)
  have hidLock : ((.errand row.id, .exclusive) : Lock × Mode) ∈ tr₃.locks :=
    List.mem_append_right _ (by simp)
  -- the keys stay free until the commit
  have hfree : Ensures hash ok tr₃ s₃ fun s v' =>
      (∃ v, ((v = s ∧ Sane s) ∧ s.fenced row.details.supplierID = false) ∧
        v' = (engine hash).applyAll [.insertErrand row] v) ∧
      (∀ e' ∈ s.errands, e'.id ≠ row.id) ∧ ∀ e' ∈ s.errands,
        ¬ (e'.requesterID = row.requesterID ∧ e'.createIdempotencyKey = row.createIdempotencyKey) := by
    intro s₄ h₄
    refine ⟨hP₃ s₄ h₄, ?_, hsane.locked_createKey (hs₃.trans h₄) hkeyLock hfreeKey⟩
    have hsame := hsane.locked_errand (hs₃.trans h₄) hidLock
    unfold Tables.errandOf at hsame
    rw [findRow_eq_none.mpr hfreeID, findRow_eq_none] at hsame
    exact hsame
  change Secure hash ok final (writeTransitionRows e row t >>= fun _ => .pure (row, true)) _ _
  rw [Secure, safe_bind]
  refine secure_writeTransitionRows hst.canonical hrows hfree (fun err tr s => herr err tr s) ?_
  intro tr₄ s₄ hext₄ hkeys hP₄
  refine hnew tr₄ s₄ row (((hext₁.trans hext₂).trans (tr₂.extends_add _ _)).trans hext₄)
    (hP₄.mono ?_)
  rintro s v' ⟨_, ⟨⟨v, ⟨⟨rfl, hsane⟩, hopen⟩, rfl⟩, hfreeID, hfreeKey⟩, reviews, rfl⟩
  rw [hrowID] at hfreeID
  rw [hrequester, hcreateKey] at hfreeKey
  refine ⟨hsane, ?_, hrow, hfreeID, hfreeKey, rfl, by rw [← hrowID]; rfl, rfl⟩
  refine .create e actor input now t row hnext hid (hok _) hrow hfreeID hfreeKey ?_ ?_ ?_ hopen
    hkeys rfl (by rw [← hrowID]; rfl) rfl rfl
  · rw [← hrowID]
    exact hext₄.locks hidLock
  · rw [← hrequester, ← hcreateKey]
    exact hext₄.locks hkeyLock
  · exact hext₄.locks ((tr₂.extends_add _ _).locks hshared)

theorem Applies.mono {locks locks' : List (Lock × Mode)} {e : Errand} {t : Transition}
    {s s' : Tables} (h : Applies hash ok locks e t s s') (hsub : locks ⊆ locks') :
    Applies hash ok locks' e t s s' :=
  ⟨h.change.mono hsub, h.decided, h.cur, h.errands, h.fences⟩

/-- The transition is one of those a commit writes. -/
def Applied (hash : String → ℤ) (ok : Tables → Errand → Transition → Prop)
    (locks : List (Lock × Mode)) (t : Transition) (s s' : Tables) : Prop :=
  ∃ v v' e, Commits hash ok locks s v ∧ Applies hash ok locks e t v v' ∧
    Commits hash ok locks v' s'

theorem Applied.mono {locks locks' : List (Lock × Mode)} {t : Transition} {s s' : Tables}
    (h : Applied hash ok locks t s s') (hsub : locks ⊆ locks') : Applied hash ok locks' t s s' := by
  obtain ⟨v, v', e, hbefore, happlies, hafter⟩ := h
  exact ⟨v, v', e, hbefore.mono hsub, happlies.mono hsub, hafter.mono hsub⟩

theorem Sane.commits {locks : List (Lock × Mode)} {s s' : Tables} (hs : Sane s)
    (h : Commits hash ok locks s s') : Sane s' := by
  induction h with
  | refl => exact hs
  | tail _ hchange ih => exact ih.change hchange

/-- The transitions of a batch are written over the errands of the batch, each once. -/
theorem secure_applyDecided
    (locked : String → Option Errand) (done : List Transition) {ts : List Transition}
    {final : Except StoreError Unit → Trail Stmt.Reply Write Lock → Tables → Prop}
    (hts : ∀ t ∈ ts, ∃ e, locked t.errandID = some e ∧ t.errandID = e.id ∧ Decides e t ∧
      (∀ s, own s e t) ∧ (.errand e.id, .exclusive) ∈ tr.locks)
    (hnodup : (ts.map Transition.errandID).Nodup)
    (hP : Ensures hash ok tr s fun s v => Sane s ∧ Commits hash own tr.locks s v ∧
      v.fences = s.fences ∧ (∀ t ∈ done, Applied hash own tr.locks t s v) ∧
      ∀ t ∈ ts, ∀ e, locked t.errandID = some e → e ∈ v.errands)
    (herr : ∀ err tr s, final (.error err) tr s)
    (h : ∀ tr' s', tr.Extends tr' → Ensures hash ok tr' s' (fun s v => Sane s ∧
      Commits hash own tr'.locks s v ∧ ∀ t ∈ done ++ ts, Applied hash own tr'.locks t s v) →
        final (.ok ()) tr' s') :
    Secure hash ok final (applyDecided locked ts) tr s := by
  induction ts generalizing tr s locked done with
  | nil =>
    refine h tr s (.refl tr) (hP.mono ?_)
    rintro s v ⟨hsane, hcommits, -, hdone, -⟩
    rw [List.append_nil]
    exact ⟨hsane, hcommits, hdone⟩
  | cons t ts ih =>
    obtain ⟨e, hlocked, hid, hdecides, hok, hlock⟩ := hts t List.mem_cons_self
    rw [List.map_cons, List.nodup_cons] at hnodup
    unfold applyDecided
    rw [hlocked]
    dsimp only
    split
    · exact herr _ _ _
    rw [Secure, safe_bind]
    refine secure_applyLocked own hP ?_ (fun _ => hdecides) (fun _ s v _ => hok v) hlock
      (fun err tr s => herr err tr s) ?_
    · rintro s v ⟨hsane, hcommits, hfences, -, hmem⟩
      exact ⟨hsane, hsane.commits hcommits, hfences, hmem t List.mem_cons_self e hlocked⟩
    intro tr₁ s₁ stored hext hcas hP₁
    -- the other errands of the batch are not touched
    have hother : ∀ t' ∈ ts, t'.errandID ≠ t.errandID := fun t' ht' heq =>
      hnodup.1 (heq ▸ List.mem_map_of_mem ht')
    refine ih (fun id => if id = t.errandID then some stored else locked id) (done ++ [t]) ?_
      hnodup.2 (hP₁.mono ?_) ?_
    · intro t' ht'
      obtain ⟨e', hlocked', hid', hdecides', hok', hlock'⟩ := hts t' (List.mem_cons_of_mem _ ht')
      exact ⟨e', by rw [if_neg (hother t' ht')]; exact hlocked', hid', hdecides', hok',
        hext.locks hlock'⟩
    · rintro s v' ⟨v, ⟨hsane, hcommits, hfences, hdone, hmem⟩, happlies⟩
      refine ⟨hsane, (hcommits.mono hext.locks).tail happlies.change,
        happlies.fences.trans hfences, ?_, ?_⟩
      · rw [List.forall_mem_append]
        constructor
        · intro t' ht'
          obtain ⟨v₁, v₂, e', hbefore, happlies', hafter⟩ := (hdone t' ht').mono hext.locks
          exact ⟨v₁, v₂, e', hbefore, happlies', hafter.tail happlies.change⟩
        · intro t' ht'
          obtain rfl := List.mem_singleton.mp ht'
          exact ⟨v, v', e, hcommits.mono hext.locks, happlies, .refl⟩
      · intro t' ht' e' hlocked'
        rw [if_neg (hother t' ht')] at hlocked'
        obtain ⟨e₁, hlocked₁, hid₁, -⟩ := hts t' (List.mem_cons_of_mem _ ht')
        obtain rfl := Option.some.inj (hlocked₁.symm.trans hlocked')
        have hne : e₁.id ≠ e.id := by
          rw [← hid₁, ← hid]
          exact hother t' ht'
        obtain ⟨row, -, herrands⟩ := happlies.errands
        rw [herrands]
        exact mem_updateRow.mpr ⟨e₁, hmem t' (List.mem_cons_of_mem _ ht') e₁ hlocked', if_neg hne⟩
    · intro tr' s' hext' hP'
      refine h tr' s' (hext.trans hext') (hP'.mono ?_)
      rintro s v ⟨hsane, hcommits, hdone⟩
      rw [List.append_assoc, List.singleton_append] at hdone
      exact ⟨hsane, hcommits, hdone⟩

/-- The transitions decided for a claimed batch, read off the log. -/
def Claims (decide : Errand → Except StoreError (Option Transition))
    (log : Program.Log Stmt.Reply) (t : Transition) : Prop :=
  ∃ kind now limit batch rest e, log = ⟨.claim kind now limit, .ok batch⟩ :: rest ∧ e ∈ batch ∧
    decide e = .ok (some t)

theorem mem_decideAll {decide : Errand → Except StoreError (Option Transition)}
    {batch : List Errand} {decided : List Transition} (h : decideAll decide batch = .ok decided)
    {e : Errand} {t : Transition} (he : e ∈ batch) (ht : decide e = .ok (some t)) :
    t ∈ decided := by
  induction batch generalizing decided with
  | nil => cases he
  | cons e' batch ih =>
    simp only [decideAll, bind_eq_ok] at h
    obtain ⟨decision, hdecision, rest, hrest, h⟩ := h
    cases h
    rcases List.mem_cons.mp he with rfl | he
    · obtain rfl := Except.ok.inj (hdecision.symm.trans ht)
      exact List.mem_append_left _ (by simp)
    · exact List.mem_append_right _ (ih hrest he)

/-- Every transition decided for the claimed batch is written, and nothing else. -/
theorem secure_claimDue
    {final : Except StoreError ℕ → Trail Stmt.Reply Write Lock → Tables → Prop} {kind : DueKind}
    {now limit : ℤ} {decide : Errand → Except StoreError (Option Transition)}
    (hdecide : ∀ e t, decide e = .ok (some t) →
      Decides e t ∧ (Regular e → ∀ s, own s e t))
    (hP : Ensures hash ok {} s fun s v => v = s ∧ Sane s)
    (herr : ∀ err tr s, final (.error err) tr s)
    (h : ∀ tr' s' n, Ensures hash ok tr' s' (fun s v => Sane s ∧ Commits hash own tr'.locks s v ∧
      (∀ t, Claims decide tr'.log t → Applied hash own tr'.locks t s v) ∧
      ∀ t t', Claims decide tr'.log t → Claims decide tr'.log t' → t.errandID = t'.errandID →
        t = t') → final (.ok n) tr' s') :
    Secure hash ok final (claimDue kind now limit decide) {} s := by
  unfold claimDue
  split
  · exact herr _ _ _
  refine secure_query fun grantable a ha s₁ hs₁ => ?_
  subst ha
  obtain ⟨hview, hsane⟩ := hP.now
  set rows := (((engine hash).applyAll [] s).claimable grantable kind now).take
    (min limit.toNat maxInt32) with hrows
  obtain ⟨hbatch, hunique⟩ := batch_ok hsane.keyed.unique grantable kind now (min limit.toNat maxInt32)
  have hid : ∀ e t, decide e = .ok (some t) → t.errandID = e.id := by
    intro e t hdec
    obtain ⟨⟨ev, actor, input, now, hnext⟩, -⟩ := hdecide e t hdec
    exact (next_for hnext).errandID
  change Secure hash ok final (check (decideAll decide rows) >>= fun decided =>
    applyDecided (fun id => rows.find? fun e => e.id = id) decided >>= fun _ =>
      .pure decided.length) _ _
  refine secure_check herr fun decided hdecided => ?_
  obtain ⟨hmem, hsub⟩ := decideAll_ok hid hdecided
  have hlock : ∀ e ∈ rows, ((.errand e.id, .exclusive) : Lock × Mode) ∈
      (Trail.add {} (Stmt.claim kind now (min limit.toNat maxInt32))
        (answerTo hash grantable (.claim kind now (min limit.toNat maxInt32)) {} s)).locks :=
    fun e he => List.mem_append_right _ (List.mem_map.mpr ⟨e, he, rfl⟩)
  rw [Secure, safe_bind]
  refine secure_applyDecided own _ [] ?_ (hunique.sublist hsub) ?_
    (fun err tr s => herr err tr s) ?_
  · intro t ht
    obtain ⟨e, he, hdec⟩ := hmem t ht
    have hregular := hsane.keyed.regular e (hbatch e he)
    refine ⟨e, ?_, hid e t hdec, (hdecide e t hdec).1, (hdecide e t hdec).2 hregular, hlock e he⟩
    rw [hid e t hdec]
    exact hunique.findRow_eq he rfl
  · intro s₂ h₂
    obtain ⟨hview₂, hsane₂⟩ := hP.read rfl hs₁ s₂ h₂
    refine ⟨hsane₂, by rw [hview₂]; exact .refl, by rw [hview₂], by simp, ?_⟩
    intro t ht e hfind
    have he : e ∈ rows ∧ e.id = t.errandID := mem_of_findRow hfind
    rw [hview₂]
    have hsame := hsane.locked_errand (hs₁.trans h₂) (hlock e he.1)
    rw [Tables.errandOf, Tables.errandOf,
      hsane.keyed.unique.findRow_eq (hbatch e he.1) rfl] at hsame
    exact (mem_of_findRow hsame).1
  · intro tr' s' hext hP'
    refine h tr' s' _ (hP'.mono ?_)
    rintro s v ⟨hsane, hcommits, happlied⟩
    -- the batch that the log names is the claimed one
    have hclaims : ∀ t, Claims decide tr'.log t → ∃ e ∈ rows, decide e = .ok (some t) := by
      rintro t ⟨kind', now', limit', batch, rest, e, hlog, he, hdec⟩
      obtain ⟨rest', hrest'⟩ := hext.log
      rw [hlog] at hrest'
      have hhead := (List.cons.inj hrest').1
      have hbatch' : rows = batch := by
        cases hhead
        rfl
      exact ⟨e, hbatch' ▸ he, hdec⟩
    refine ⟨hsane, hcommits, fun t ht => ?_, fun t t' ht ht' hsame => ?_⟩
    · obtain ⟨e, he, hdec⟩ := hclaims t ht
      exact happlied t (mem_decideAll hdecided he hdec)
    · obtain ⟨e, he, hdec⟩ := hclaims t ht
      obtain ⟨e', he', hdec'⟩ := hclaims t' ht'
      obtain rfl : e = e' := hunique.eq he he' (by rw [← hid e t hdec, ← hid e' t' hdec', hsame])
      exact Option.some.inj (Except.ok.inj (hdec.symm.trans hdec'))

/-! ## Rejections and reminders -/

theorem insertOutboxIfAbsent_cases (grantable : Lock → Mode → Bool) (row : OutboxRow)
    (s : Tables) :
    (∃ e locks, exec hash grantable (.insertOutboxIfAbsent row) s = ⟨.error e, [], locks⟩) ∨
      exec hash grantable (.insertOutboxIfAbsent row) s = ⟨.ok 0, [], []⟩ ∨
      ∃ locks, (∀ r ∈ s.outbox, r.idempotencyKey ≠ row.idempotencyKey) ∧
        (.outboxKey row.idempotencyKey, .exclusive) ∈ locks ∧
        exec hash grantable (.insertOutboxIfAbsent row) s =
          ⟨.ok 1, [.insertOutbox row], locks⟩ := by
  simp only [exec]
  split_ifs with hkey herrand
  · exact Or.inr (Or.inl rfl)
  · exact Or.inr (Or.inr ⟨_, by simpa [Tables.hasKey] using hkey, by simp, rfl⟩)
  · exact Or.inl ⟨_, _, rfl⟩

theorem insertCurrentReminder_cases (grantable : Lock → Mode → Bool) (row : OutboxRow)
    (status : Status) (version : ℕ) (s : Tables) :
    (∃ locks, exec hash grantable (.insertCurrentReminder row status version) s =
        ⟨.ok 0, [], locks⟩) ∨
      ∃ locks, (∀ r ∈ s.outbox, r.idempotencyKey ≠ row.idempotencyKey) ∧
        (.outboxKey row.idempotencyKey, .exclusive) ∈ locks ∧
        exec hash grantable (.insertCurrentReminder row status version) s =
          ⟨.ok 1, [.insertOutbox row], locks⟩ := by
  simp only [exec]
  split_ifs with hcurrent hkey
  · exact Or.inl ⟨_, rfl⟩
  · exact Or.inr ⟨_, by simpa [Tables.hasKey] using hkey, by simp, rfl⟩
  · exact Or.inl ⟨_, rfl⟩

/-- A row inserted under a new key of its own is a change that may be committed. -/
theorem note_commits {q : Stmt} {n : q.Reply} {locks : List (Lock × Mode)} (row : OutboxRow)
    {s' : Tables} (hP : Ensures hash ok tr s fun s v => v = s ∧ Sane s)
    (hkey : NoteKey row.idempotencyKey) (hkind : ∃ name, row.kind = .event name)
    (hfresh : ∀ r ∈ s.outbox, r.idempotencyKey ≠ row.idempotencyKey)
    (hlock : (.outboxKey row.idempotencyKey, .exclusive) ∈ locks)
    (hs' : Disturbed (Commits hash ok) (tr.add q ⟨n, [.insertOutbox row], locks⟩).locks s s') :
    Ensures hash ok (tr.add q ⟨n, [.insertOutbox row], locks⟩) s' fun s v =>
      Commits hash own (tr.add q ⟨n, [.insertOutbox row], locks⟩).locks s v := by
  have hlock' : (.outboxKey row.idempotencyKey, .exclusive) ∈
      (tr.add q ⟨n, [.insertOutbox row], locks⟩).locks := List.mem_append_right _ hlock
  intro s₁ h₁
  obtain ⟨v, ⟨rfl, hsane⟩, hview⟩ := hP.add hs' s₁ h₁
  rw [hview]
  have hfree := hP.now.2.locked_outboxKey (hs'.trans h₁) hlock' hfresh
  exact .single (.note row hkey hkind hfree hlock' rfl rfl rfl rfl)

/-- Nothing written is always allowed. -/
theorem Holds.commits own (hP : Ensures hash ok tr s fun s v => v = s ∧ Sane s) :
    Ensures hash ok tr s fun s v => Commits hash own tr.locks s v := by
  intro s₁ h₁
  rw [(hP s₁ h₁).1]
  exact .refl

theorem secure_recordRejection
    {final : Except StoreError Unit → Trail Stmt.Reply Write Lock → Tables → Prop} {r : Rejection}
    (hP : Ensures hash ok tr s fun s v => v = s ∧ Sane s)
    (herr : ∀ err tr s, final (.error err) tr s)
    (h : ∀ tr' s', Ensures hash ok tr' s' (fun s v => Commits hash own tr'.locks s v) →
      final (.ok ()) tr' s') :
    Secure hash ok final (recordRejection r) tr s := by
  unfold recordRejection
  split
  · exact herr _ _ _
  split
  · exact herr _ _ _
  next id hid =>
  refine secure_query fun grantable a ha s₁ hs₁ => ?_
  have hwrites : a.writes = [] := by
    subst ha
    simp only [answerTo, exec]
    split <;> rfl
  have hP₁ := hP.read hwrites hs₁
  generalize a.reply = reply at *
  cases reply with
  | error err => cases err <;> exact herr _ _ _
  | ok row =>
    refine secure_query fun grantable' a' ha' s₂ hs₂ => ?_
    have hkey : NoteKey (rejectionKey r.errandID r.action r.requestID) :=
      noteKey_rejectionKey r.action r.requestID (by rw [hid]; rfl)
    rcases insertOutboxIfAbsent_cases grantable' _ _ with ⟨err, locks, hanswer⟩ | hanswer |
      ⟨locks, hfresh, hlock, hanswer⟩
    · obtain rfl := ha'.symm.trans hanswer
      exact herr _ _ _
    · obtain rfl := ha'.symm.trans hanswer
      exact h _ s₂ (Holds.commits own (hP₁.read rfl hs₂))
    · obtain rfl := ha'.symm.trans hanswer
      rw [hP₁.now.1] at hfresh
      exact h _ s₂ (note_commits own _ hP₁ hkey ⟨_, rfl⟩ hfresh hlock hs₂)

theorem secure_insertCurrentReminder
    {final : Except StoreError Bool → Trail Stmt.Reply Write Lock → Tables → Prop}
    {kind : ReminderKind} {c : ReminderCandidate} {now : ℤ}
    (hP : Ensures hash ok tr s fun s v => v = s ∧ Sane s)
    (herr : ∀ err tr s, final (.error err) tr s)
    (h : ∀ tr' s' inserted, Ensures hash ok tr' s' (fun s v => Commits hash own tr'.locks s v) →
      final (.ok inserted) tr' s') :
    Secure hash ok final (insertCurrentReminder kind c now) tr s := by
  unfold insertCurrentReminder
  split
  · exact herr _ _ _
  next id hid =>
  have hkey : NoteKey (reminderRow kind c now).idempotencyKey :=
    noteKey_reminder kind c.version (by rw [hid]; rfl)
  refine secure_query fun grantable a ha s₁ hs₁ => ?_
  rcases insertCurrentReminder_cases grantable { reminderRow kind c now with errandID := id }
    c.status c.version _ with ⟨locks, hanswer⟩ | ⟨locks, hfresh, hlock, hanswer⟩
  · obtain rfl := ha.symm.trans hanswer
    exact h _ s₁ _ (Holds.commits own (hP.read rfl hs₁))
  · obtain rfl := ha.symm.trans hanswer
    rw [hP.now.1] at hfresh
    exact h _ s₁ _ (note_commits own { reminderRow kind c now with errandID := id } hP hkey
      ⟨_, rfl⟩ hfresh hlock hs₁)

end Rules

end FocServices.Orders
