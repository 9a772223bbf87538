import TablesOS.Proofs.DataIntegrity
import TablesOS.Proofs.LowPages

/-!
# A refused operation changes nothing

An operation that answers `Err` leaves device, superblock and staging set as
they were, whatever its arguments, and a caller who keeps to the row ids it was
given cannot tell that the operation was ever called
(`refused_changes_nothing`). With a made-up id it can: on the superblock page
the slots of an index page are the words of the superblock, a delete that is
refused there leaves the page in the cache, and a later commit does not renew
it (`free_list_remembered`).
-/

namespace TablesOS

open Prog Codec Journal Medium

namespace Codec

open Decoder

/-- The error of a damaged encoding. -/
def Damaged (e : StoreError) : Prop := ∃ what, e = .corrupt what

theorem getUvarint_damaged : FailsWith Damaged getUvarint := by
  have hloop : ∀ (bs : List Byte) (result shift : Nat) (e : StoreError),
      getUvarintLoop result shift bs = .error e → Damaged e := by
    intro bs
    induction bs with
    | nil =>
        intro result shift e h
        cases h
        exact ⟨_, rfl⟩
    | cons b bs ih =>
        intro result shift e h
        rw [getUvarintLoop] at h
        split at h
        · cases h
          exact ⟨_, rfl⟩
        · simp only [] at h
          split at h
          · cases h
          · exact ih _ _ e h
  exact fun bs => hloop bs 0 0

theorem getByte_damaged (what : String) : FailsWith Damaged (getByte what) := by
  intro bs e h
  cases bs with
  | nil =>
      cases h
      exact ⟨_, rfl⟩
  | cons b bs => cases h

theorem getStr_damaged : FailsWith Damaged getStr := by
  have hbytes : FailsWith Damaged getBytes := by
    refine getUvarint_damaged.bind fun len rest e h => ?_
    split at h
    · cases h
    · cases h
      exact ⟨_, rfl⟩
  refine hbytes.bind fun b => ?_
  split
  · exact FailsWith.pure _
  · exact FailsWith.throw ⟨_, rfl⟩

theorem decodeRow_damaged {bytes : List Byte} {e : StoreError} (h : decodeRow bytes = .error e) :
    Damaged e := by
  have hcell : FailsWith Damaged getCell := by
    refine (getByte_damaged _).bind fun present => ?_
    split
    · exact FailsWith.pure _
    refine (getByte_damaged _).bind fun tag => ?_
    split
    · exact FailsWith.throw ⟨_, rfl⟩
    refine getStr_damaged.bind fun s => ?_
    split
    · exact FailsWith.pure _
    · exact FailsWith.throw ⟨_, rfl⟩
  exact (getUvarint_damaged.bind fun n => hcell.many n).run' h

end Codec

namespace Store

open Pager

variable {α β : Type}

/-! ## Reading through the handle -/

theorem runProg_bind (p : PageProg β) (f : β → PageProg α) (pg : Pager Disk) :
    runProg (p >>= f) pg = match runProg p pg with
      | (.ok b, pg') => runProg (f b) pg'
      | (.err e, pg') => (.err e, pg')
      | (.panic, pg') => (.panic, pg')
      | (.diverge, pg') => (.diverge, pg') := by
  show runProg (p.bind f) pg = _
  induction p generalizing pg with
  | done o => cases o <;> rfl
  | read a k ih =>
      simp only [Prog.bind, runProg]
      rcases Pager.readPage a pg with ⟨e | x, pg'⟩
      · rfl
      · exact ih x pg'
  | ctl k ih => exact ih pg.sb pg
  | write a x p ih => exact ih _
  | setCtl sb p ih => exact ih _

theorem runProg_bind_ok {p : PageProg β} {f : β → PageProg α} {b : β} {pg pg' : Pager Disk}
    (h : runProg p pg = (.ok b, pg')) : runProg (p >>= f) pg = runProg (f b) pg' := by
  rw [runProg_bind, h]

theorem runProg_bind_err {p : PageProg β} {f : β → PageProg α} {e : StoreError}
    {pg pg' : Pager Disk} (h : runProg p pg = (.err e, pg')) :
    runProg (p >>= f) pg = (.err e, pg') := by
  rw [runProg_bind, h]

/-- A transaction that begins by opening a table of the model. -/
theorem opened_run {led : Ledger RowId} {db : Database RowId} {pg : Pager Disk}
    (h : Mirrored led pg db) {t : TableState RowId} (ht : t ∈ db)
    (K : List CatEntry → Nat → CatEntry → Table → PageProg α) :
    ∃ es i e pg', runProg (do
        let cat ← loadCatalog
        let i ← catIndex cat t.schema.name
        let e ← at! cat i
        let t ← schemaOf e
        K cat i e t : PageProg α) pg = runProg (K es i e t.schema) pg' ∧ Still pg pg' ∧
      pg'.Clean ∧ LowKept pg.sb.totalPages pg.cache pg'.cache := by
  obtain ⟨L, hL, rfl⟩ := h.stores
  obtain ⟨avail, cat, hr⟩ := hL.readable
  obtain ⟨A, u, B, rfl, rfl, hidx⟩ := Seated.split hL.intact.closed.names ht
  have hu : u ∈ A ++ u :: B := by simp
  have hcat : pg.ask loadCatalog = _ := ask_of_eval hL.clean hr.loadCatalog_run
  obtain ⟨pg₁, hrun₁, hstill₁, hc₁, hlow₁⟩ := query_run hL.clean hL.quiet loadCatalog
    (by rw [hcat]; exact fun h => by cases h)
  rw [hcat] at hrun₁
  have hschema : pg₁.ask (schemaOf u.entry) = .ok u.schema := by
    rw [hstill₁.ask]
    exact ask_of_eval hL.clean (hr.schemaOf_run hu)
  obtain ⟨pg₂, hrun₂, hstill₂, hc₂, hlow₂⟩ := query_run hc₁ (hstill₁.quiet hL.quiet)
    (schemaOf u.entry) (by rw [hschema]; exact fun h => by cases h)
  rw [hschema] at hrun₂
  rw [hstill₁.sb] at hlow₂
  refine ⟨(A ++ u :: B).map Stored.entry, A.length, u.entry, pg₂, ?_, hstill₁.trans hstill₂, hc₂,
    hlow₁.trans hlow₂⟩
  rw [runProg_bind_ok hrun₁]
  have hidx' : runProg (liftM (catIndex ((A ++ u :: B).map Stored.entry) u.state.schema.name) :
      PageProg Nat) pg₁ = (.ok A.length, pg₁) := congrArg (·, pg₁) hidx
  rw [runProg_bind_ok hidx']
  have hat : runProg (liftM (at! ((A ++ u :: B).map Stored.entry) A.length) :
      PageProg CatEntry) pg₁ = (.ok u.entry, pg₁) := congrArg (·, pg₁) (at_entry A u B)
  rw [runProg_bind_ok hat, runProg_bind_ok hrun₂]
  rfl

/-! ## The superblock as an index page -/

/-- The words of the superblock page that a row id can name. -/
theorem encode_words (sb : Superblock) (hfree : sb.freeHead < 2 ^ 64) :
    2 < rdU64 sb.encode 8 ∧ rdU64 sb.encode (idxHdr + 2 * 8) = sb.freeHead := by
  have hsize : sb.encode.getLe 4 8 = pageSize := by
    unfold Superblock.encode Superblock.encodeFields
    iterate 6 rw [Buf.getLe_putLe_disjoint (by omega)]
    exact Buf.getLe_putLe_self (by decide) (by decide)
  have hlow : sb.encode.getLe 4 8 ≤ sb.encode.getLe 8 8 := by
    simp only [Buf.getLe, Buf.slice, List.range_succ, List.range_zero, List.nil_append,
      List.cons_append, List.map_cons, List.map_nil, ofLe]
    omega
  refine ⟨?_, ?_⟩
  · show 2 < sb.encode.getLe 8 8
    rw [hsize] at hlow
    exact Nat.lt_of_lt_of_le (by decide) hlow
  · show sb.encode.getLe 8 32 = sb.freeHead
    unfold Superblock.encode Superblock.encodeFields
    iterate 3 rw [Buf.getLe_putLe_disjoint (by omega)]
    exact Buf.getLe_putLe_self (by decide) hfree

/-- An id on the superblock page has the head of the free list for its row. -/
theorem rowHeadAt_super {pg : Pager Disk} {sb : Superblock} (hfree : sb.freeHead < 2 ^ 64)
    {pg' : Pager Disk} (hread : Pager.readPage 0 pg = (.ok sb.encode, pg')) :
    runProg (liftM (rowHeadAt ⟨0, 2⟩)) pg =
      (if sb.freeHead = 0 then .err (.notFound "row (deleted)") else .ok sb.freeHead, pg') := by
  obtain ⟨hn, hword⟩ := encode_words sb hfree
  show runProg (Prog.ofQuery (rowHeadAt ⟨0, 2⟩)) pg = _
  rw [rowHeadAt, ofQuery_bind]
  have hpage : runProg (liftM (getPage 0) : PageProg Page) pg = (.ok sb.encode, pg') := by
    show runProg (Prog.read 0 fun x => Prog.done (.ok x)) pg = _
    rw [runProg, hread]
    rfl
  rw [runProg_bind_ok hpage]
  simp only []
  rw [if_neg (by omega), if_neg (by decide), hword]
  split <;> rfl

/-- Reading a row, from any pages: it is never missing. -/
theorem readRow_found {rd : Nat → Outcome StoreError Page}
    (hrd : ∀ p e, rd p = .err e → ∀ what, e ≠ .notFound what) (sb : Superblock) (head : Nat)
    (what : String) : (readRow head).eval rd sb ≠ .err (.notFound what) := by
  have hloop : ∀ (fuel p : Nat) (out : List Byte) (e : StoreError),
      (readChainLoop fuel p out).eval rd sb = .err e → e ≠ .notFound what := by
    intro fuel
    induction fuel with
    | zero =>
        intro p out e h
        cases h
    | succ fuel ih =>
        intro p out e h
        rw [readChainLoop] at h
        split at h
        · cases h
        · rw [Query.eval_bind, eval_getPage] at h
          cases hp : rd p with
          | ok page =>
              rw [hp, Outcome.ok_bind] at h
              simp only [] at h
              split at h
              · cases h
                exact fun h => by cases h
              · exact ih _ _ e h
          | err e' =>
              rw [hp] at h
              cases h
              exact hrd p e hp what
          | panic => rw [hp] at h; cases h
          | diverge => rw [hp] at h; cases h
  rw [readRow, Query.eval_bind]
  cases hc : (readChain head).eval rd sb with
  | ok bytes =>
      rw [Outcome.ok_bind, Query.eval_lift]
      cases hd : decodeRow bytes with
      | ok row => exact fun h => by cases h
      | error e =>
          obtain ⟨w, rfl⟩ := decodeRow_damaged hd
          exact fun h => by cases h
  | err e =>
      intro h
      cases h
      rw [readChain, Query.eval_bind_ok _ _ (eval_getSb rd sb)] at hc
      exact hloop _ _ _ _ hc rfl
  | panic => exact fun h => by cases h
  | diverge => exact fun h => by cases h

/-- The superblock a transaction ends with, in memory and on the first page. -/
theorem Mirrored.committed {led : Ledger RowId} {db : Database RowId} {pg pg' : Pager Disk}
    (h : Mirrored led pg db) {op : Op RowId} (he : led.Covers (.call op))
    {body : PageProg (Reply RowId)}
    (hask : pg.ask (method op) = .ok (.tx body)) {a : Reply RowId}
    (hrun : run op pg = (.ok a, pg')) : ∃ s, pg.attempt body = (.ok a, s) ∧
      pg'.sb = { s.ctl with generation := (s.ctl.generation + 1) % 2 ^ 64 } ∧
      image pg'.dev.view 0 = pg'.sb.encode := by
  have huses := h.uses he
  obtain ⟨L, hL, rfl⟩ := h.stores
  obtain ⟨avail, cat, hr⟩ := hL.readable
  obtain ⟨hsize, pg₁, hcall, hstill, hclean, -⟩ := call_tx hL.clean hL.quiet (steady_method op) hask
  have hquiet := hstill.quiet hL.quiet
  rw [← hstill.sb] at hsize
  have htx : tx body pg₁ = (.ok a, pg') := hcall.symm.trans hrun
  have hfail : ∀ {e : StoreError}, ¬ ∃ pg'', tx body pg₁ = (.err e, pg'') := by
    rintro e ⟨pg'', hbad⟩
    rw [htx] at hbad
    cases hbad
  rcases method_settles hr hL.intact op huses with
    ⟨e, hq, -⟩ | ⟨a', hq, -⟩ | ⟨body', -, hq, hbody⟩
  · have hbad := ask_of_eval hL.clean hq
    rw [hask] at hbad
    cases hbad
  · have hbad := ask_of_eval hL.clean hq
    rw [hask] at hbad
    cases hbad
  · have hsame := ask_of_eval hL.clean hq
    rw [hask] at hsame
    cases hsame
    have hatt : ∀ o s, body.eval (volumeOf pg hL.clean).base ⟨pg.sb, ∅⟩ = (o, s) →
        pg₁.attempt body = (o, s) := by
      intro o s hb
      rw [hstill.attempt]
      exact hb
    rcases hbody with ⟨e, hs, -⟩ | ⟨-, ⟨s, hs⟩ | ⟨a', s, hs, L', hl, -⟩⟩
    · exact absurd (tx_attempt_err hclean hquiet hsize (hatt _ _ hs)) hfail
    · exact absurd (tx_attempt_err hclean hquiet hsize (hatt _ _ hs)) hfail
    · have hcount : s.dirty.size < jcap := Nat.lt_of_not_le fun hfull =>
        hfail (tx_full hclean hquiet hsize (hatt _ _ hs) hfull)
      have hcommit := hl.committable rfl hcount
      have htotal : pg₁.sb.totalPages = (volumeOf pg hL.clean).total := by
        rw [hstill.sb]
        rfl
      rw [← htotal] at hcommit
      obtain ⟨pg'', htx', -, -, -, hsb, hzero, -⟩ :=
        tx_ok hclean hquiet hsize (hatt _ _ hs) hcommit
      rw [htx] at htx'
      injection htx' with ha hpg
      injection ha with ha
      subst ha hpg
      exact ⟨s, hs, hsb, hzero⟩

/-! ## The free list when a table is created -/

section FreeList

variable {rd : Superblock → Nat → Outcome StoreError Page} {s s' : Staged Superblock Page}

theorem allocPage_ctl {p : Nat} (h : allocPage.eval rd s = (.ok p, s')) :
    s'.ctl.catalogHead = s.ctl.catalogHead ∧ (s.ctl.freeHead = 0 → s'.ctl.freeHead = 0) := by
  by_cases hfree : s.ctl.freeHead = 0
  · by_cases hlt : s.ctl.hwm < s.ctl.totalPages
    · rw [allocPage_extend hfree hlt] at h
      cases h
      exact ⟨rfl, id⟩
    · rw [allocPage_none hfree hlt] at h
      cases h
  · cases hread : s.read rd s.ctl.freeHead with
    | ok img =>
        rw [allocPage_reuse hfree hread] at h
        cases h
        exact ⟨rfl, fun h0 => absurd h0 hfree⟩
    | _ =>
        rw [allocPage, eval_query_bind _ (eval_getSb _ _), if_pos hfree, eval_bind, eval_query,
          eval_getPage, hread] at h
        cases h

theorem writeChain_ctl {bytes : List Byte} {head : Nat}
    (h : (writeChain bytes).eval rd s = (.ok head, s')) :
    s'.ctl.catalogHead = s.ctl.catalogHead ∧ (s.ctl.freeHead = 0 → s'.ctl.freeHead = 0) := by
  have halloc : ∀ (n : Nat) {s s' : Staged Superblock Page} {ps : List Nat},
      (allocPages n).eval rd s = (.ok ps, s') → s'.ctl.catalogHead = s.ctl.catalogHead ∧
        (s.ctl.freeHead = 0 → s'.ctl.freeHead = 0) := by
    intro n
    induction n with
    | zero =>
        intro s s' ps h
        cases h
        exact ⟨rfl, id⟩
    | succ n ih =>
        intro s s' ps h
        obtain ⟨p, s₁, hp, h⟩ := eval_bind_inv _ h
        obtain ⟨ps', s₂, hps, h⟩ := eval_bind_inv _ h
        cases h
        obtain ⟨hcat₁, hfree₁⟩ := allocPage_ctl hp
        obtain ⟨hcat₂, hfree₂⟩ := ih hps
        exact ⟨hcat₂.trans hcat₁, fun h0 => hfree₂ (hfree₁ h0)⟩
  have hchunks : ∀ (ps : List Nat) {bytes : List Byte} {s s' : Staged Superblock Page} {u : Unit},
      (writeChunks ps bytes).eval rd s = (.ok u, s') → s'.ctl = s.ctl := by
    intro ps
    induction ps with
    | nil =>
        intro bytes s s' u h
        cases h
        rfl
    | cons p ps ih =>
        intro bytes s s' u h
        rw [writeChunks, eval_bind_ok _ (eval_stage _ _ _ _)] at h
        have hrest := ih h
        exact hrest
  obtain ⟨ps, s₁, hps, h⟩ := eval_bind_inv _ h
  obtain ⟨u, s₂, hws, h⟩ := eval_bind_inv _ h
  cases h
  rw [hchunks ps hws]
  exact halloc _ hps

/-- Freeing a chain leaves its last page at the head of the free list. -/
theorem freeChainLoop_head (fuel : Nat) : ∀ {p : Nat} {s s' : Staged Superblock Page} {u : Unit},
    (freeChainLoop fuel p).eval rd s = (.ok u, s') → p ≠ 0 ∨ s.ctl.freeHead ≠ 0 →
      s'.ctl.freeHead ≠ 0 := by
  induction fuel with
  | zero =>
      intro p s s' u h
      cases h
  | succ fuel ih =>
      intro p s s' u h hne
      rw [freeChainLoop] at h
      split at h
      · next hp =>
          cases h
          exact hne.resolve_left (not_not.mpr hp)
      · next hp =>
          obtain ⟨page, s₁, -, h⟩ := eval_bind_inv _ h
          obtain ⟨u₁, s₂, hfree, h⟩ := eval_bind_inv _ h
          rw [freePage_eval] at hfree
          cases hfree
          exact ih h (.inr hp)

/-- A catalog in the place of an older one leaves a page free. -/
theorem storeCatalog_ctl {cat : List CatEntry} {u : Unit}
    (h : (storeCatalog cat).eval rd s = (.ok u, s')) :
    (s.ctl.catalogHead = 0 → s.ctl.freeHead = 0 → s'.ctl.freeHead = 0) ∧
      (s.ctl.catalogHead ≠ 0 → s'.ctl.freeHead ≠ 0) := by
  rw [storeCatalog, eval_query_bind _ (eval_getSb _ _)] at h
  obtain ⟨head, s₁, hw, h⟩ := eval_bind_inv _ h
  rw [eval_query_bind _ (eval_getSb _ _), eval_bind_ok _ (eval_setControl _ _ _)] at h
  obtain ⟨-, hfree⟩ := writeChain_ctl hw
  split at h
  · next hne =>
      refine ⟨fun h0 => absurd h0 hne, fun _ => ?_⟩
      rw [freeChain, eval_query_bind _ (eval_getSb _ _)] at h
      exact freeChainLoop_head _ h (.inl hne)
  · next h0 =>
      cases h
      exact ⟨fun _ => hfree, fun hne => absurd hne h0⟩

/-- What creating a table leaves of the free list. -/
theorem createTable_ctl {name : String} {body : PageProg Unit} {u : Unit}
    (hbody : createTable name = pure (.tx body))
    (h : body.eval rd s = (.ok u, s')) :
    (s.ctl.catalogHead = 0 → s.ctl.freeHead = 0 → s'.ctl.freeHead = 0) ∧
      (s.ctl.catalogHead ≠ 0 → s'.ctl.freeHead ≠ 0) := by
  unfold createTable at hbody
  split at hbody
  · cases hbody
  · cases hbody
    obtain ⟨cat, s₁, hcat, h⟩ := eval_bind_inv _ h
    rw [eval_query] at hcat
    injection hcat with _ hs
    subst hs
    split at h
    · cases h
    · obtain ⟨qs, s₂, hq, h⟩ := eval_bind_inv _ h
      obtain ⟨is, s₃, hi, h⟩ := eval_bind_inv _ h
      obtain ⟨hcat₁, hfree₁⟩ := writeChain_ctl hq
      obtain ⟨hcat₂, hfree₂⟩ := writeChain_ctl hi
      obtain ⟨hnone, hsome⟩ := storeCatalog_ctl h
      rw [hcat₂, hcat₁] at hnone hsome
      exact ⟨fun h0 hf => hnone h0 (hfree₂ (hfree₁ hf)), hsome⟩

end FreeList

/-- Creating a table, on a handle: the superblock it leaves. -/
theorem createTable_super {led : Ledger RowId} {db : Database RowId} {pg pg' : Pager Disk}
    (h : Mirrored led pg db) {name : String}
    (hrun : run (.createTable name) pg = (.ok .done, pg')) :
    image pg'.dev.view 0 = pg'.sb.encode ∧
      (pg.sb.catalogHead = 0 → pg.sb.freeHead = 0 → pg'.sb.freeHead = 0) ∧
      (pg.sb.catalogHead ≠ 0 → pg'.sb.freeHead ≠ 0) := by
  have hname : name.isEmpty = false := by
    by_contra hempty
    have hfail : (method (.createTable name) : PageQuery (Call (Reply RowId))) =
        Query.fail (.schemaRejected "table name is empty") := by
      show silent (createTable name) = _
      rw [createTable, if_pos (by simpa using hempty)]
      rfl
    rw [run, hfail] at hrun
    cases hrun
  obtain ⟨body, hbody⟩ : ∃ body, createTable name = pure (.tx body) := by
    rw [createTable, if_neg (by simp [hname])]
    exact ⟨_, rfl⟩
  have hask : pg.ask (method (.createTable name)) = .ok (.tx ((fun _ => .done) <$> body)) := by
    show pg.ask (silent (createTable name)) = _
    rw [hbody]
    rfl
  have hcovers : led.Covers (.call (.createTable name)) := trivial
  obtain ⟨s, hatt, hsb, hzero⟩ := h.committed hcovers hask hrun
  obtain ⟨u, s₁, hs, hdone⟩ := eval_bind_inv _ (show
    ((body >>= fun _ => pure .done : PageProg (Reply RowId))).eval _ _ = _ from hatt)
  cases hdone
  obtain ⟨hnone, hsome⟩ := createTable_ctl hbody hs
  rw [hsb]
  exact ⟨hsb ▸ hzero, hnone, hsome⟩

/-- Where the catalog has an entry, it has a page. -/
theorem Mirrored.catalog_ne {led : Ledger RowId} {db : Database RowId} {pg : Pager Disk}
    (h : Mirrored led pg db) (hne : db ≠ []) : pg.sb.catalogHead ≠ 0 := by
  obtain ⟨es, hpages, -⟩ := h.onPages
  intro h0
  have hcat := hpages.catalog
  rw [Pager.ask, loadCatalog, Query.eval_bind_ok _ _ (eval_getSb _ _), if_pos h0] at hcat
  cases hcat
  cases hpages.tables
  exact hne rfl

/-- Reading the superblock page leaves it in the cache. -/
theorem readPage_zero {pg : Pager Disk} (h : pg.Clean) (hq : pg.dev.Quiet)
    (hlow : NoLow pg.cache) : ∃ pg', Pager.readPage 0 pg = (.ok (image pg.dev.view 0), pg') ∧
      pg'.cache[0]? = some (image pg.dev.view 0) := by
  have hpos : 0 < firstDataPage := by decide
  have hsize : 0 < pg.sb.totalPages := Nat.lt_of_lt_of_le hpos h.fits.journal
  obtain ⟨k, -, hres⟩ := readPage_run pg.dev 0 zeroedPage
  have hread := hres.resolve_right fun hf => hq.not_faultIn k hf.2
  rw [readAll_eq h.fits.disk (h.fits.page hsize)] at hread
  unfold Pager.readPage
  rw [h.staged, Std.TreeMap.getElem?_emptyc, hlow 0 hpos]
  simp only []
  rw [if_neg (by omega)]
  unfold onDev
  rcases hj : Journal.readPage 0 zeroedPage pg.dev with ⟨e | x, d⟩ <;> rw [hj] at hread <;>
    cases hread
  refine ⟨_, rfl, ?_⟩
  show (cacheInsert pg.cache 0 (image pg.dev.view 0))[0]? = _
  unfold cacheInsert
  rw [Std.TreeMap.getElem?_insert, if_pos (Nat.compare_eq_eq.mpr rfl)]

/-- The superblock in the cache is what a read of its page answers. -/
theorem readPage_cached {pg : Pager Disk} (h : pg.Clean) {p : Nat} {x : Page}
    (hcache : pg.cache[p]? = some x) : Pager.readPage p pg = (.ok x, pg) := by
  unfold Pager.readPage
  rw [h.staged, Std.TreeMap.getElem?_emptyc, hcache]

theorem freeHead_small {led : Ledger RowId} {db : Database RowId} {pg : Pager Disk}
    (h : Mirrored led pg db) : pg.sb.freeHead < 2 ^ 64 := by
  obtain ⟨L, hL, -⟩ := h.stores
  obtain ⟨avail, cat, hr⟩ := hL.readable
  exact hr.holds.freeHead_lt

/-- With an id on the superblock page, a delete is refused and leaves that page in
the cache. -/
theorem delete_super {led : Ledger RowId} {db : Database RowId} {pg : Pager Disk}
    (h : Mirrored led pg db) (hlow : NoLow pg.cache) {t : TableState RowId} (ht : t ∈ db)
    (hzero : image pg.dev.view 0 = pg.sb.encode) (hfree : pg.sb.freeHead = 0) :
    ∃ pg', run (.delete t.schema.name ⟨0, 2⟩) pg = (.err (.notFound "row (deleted)"), pg') ∧
      pg'.cache[0]? = some pg.sb.encode := by
  obtain ⟨es, i, e, pg₁, hopen, hstill, hclean, hlow₁⟩ := opened_run h ht fun cat i e u => (do
    let head ← rowHeadAt ⟨0, 2⟩
    let row ← decodeRowFitted head u.columns.length
    restrict cat i u ⟨0, 2⟩ row t.schema.name fun _ _ => false
    freeChain head
    indexSet 0 2 0
    storeCatalog (cat.set i { e with rowCount := e.rowCount - 1 }) : PageProg Unit)
  have hview : image pg₁.dev.view 0 = pg.sb.encode := by
    rw [(hstill.alike h.quiet).dev.view, hzero]
  obtain ⟨pg₂, hpage, hcache⟩ := readPage_zero hclean (hstill.quiet h.quiet)
    (hlow₁.noLow hlow)
  rw [hview] at hpage hcache
  have hread := rowHeadAt_super (freeHead_small h) hpage
  rw [if_pos hfree] at hread
  rw [runProg_bind_err hread] at hopen
  have hbody := runProg_bind_err (f := fun _ => (pure .done : PageProg (Reply RowId))) hopen
  refine ⟨(rollback pg₂).2, ?_, by rw [rollback_cache, hcache]⟩
  exact tx_of_err hbody

/-- With that page in the cache, the id still has the row head it had then. -/
theorem getRow_stale {led : Ledger RowId} {db : Database RowId} {pg : Pager Disk}
    (h : Mirrored led pg db) (hsmall : pg.sb.totalPages < cacheMax) {t : TableState RowId}
    (ht : t ∈ db) {sb : Superblock} (hcache : pg.cache[0]? = some sb.encode)
    (hfree : sb.freeHead = 0) :
    (run (.getRow t.schema.name ⟨0, 2⟩) pg).1 = .err (.notFound "row (deleted)") := by
  have hform : Prog.ofQuery (method (.getRow t.schema.name ⟨0, 2⟩)) = (do
      let cat ← loadCatalog
      let i ← catIndex cat t.schema.name
      let e ← at! cat i
      let t ← schemaOf e
      (liftM (rowHeadAt ⟨0, 2⟩) >>= fun head => Prog.ofQuery (do
        let row ← decodeRowFitted head t.columns.length
        pure (.ret (.row row))) : PageProg (Call (Reply RowId)))) := by
    show Prog.ofQuery (answer .row (getRow t.schema.name ⟨0, 2⟩)) = _
    simp only [answer, getRow, ofQuery_bind, bind_assoc]
    rfl
  obtain ⟨es, i, e, pg₁, hrun, hstill, hclean, hkeep⟩ := opened_run h ht
    fun cat i e t => (liftM (rowHeadAt ⟨0, 2⟩) >>= fun head => Prog.ofQuery (do
        let row ← decodeRowFitted head t.columns.length
        pure (.ret (.row row))) : PageProg (Call (Reply RowId)))
  have hread := rowHeadAt_super (hfree ▸ by decide : sb.freeHead < 2 ^ 64)
    (readPage_cached hclean ((hkeep.same hsmall (by decide)).trans hcache))
  rw [if_pos hfree] at hread
  rw [runProg_bind_err hread] at hrun
  rw [run, call, hform, hrun]

/-- Without it, the id has the head of the free list. -/
theorem getRow_fresh {led : Ledger RowId} {db : Database RowId} {pg : Pager Disk}
    (h : Mirrored led pg db) (hlow : NoLow pg.cache) {t : TableState RowId} (ht : t ∈ db)
    (hzero : image pg.dev.view 0 = pg.sb.encode) (hfree : pg.sb.freeHead ≠ 0) :
    (run (.getRow t.schema.name ⟨0, 2⟩) pg).1 ≠ .err (.notFound "row (deleted)") := by
  have hpos : 0 < firstDataPage := by decide
  have hsize : 0 < pg.sb.totalPages := Nat.lt_of_lt_of_le hpos h.clean.fits.journal
  obtain ⟨hn, hword⟩ := encode_words pg.sb (freeHead_small h)
  have hhead : (rowHeadAt ⟨0, 2⟩).eval (direct pg.load pg.sb) pg.sb = .ok pg.sb.freeHead := by
    have hpage : (getPage 0).eval (direct pg.load pg.sb) pg.sb = .ok pg.sb.encode := by
      rw [eval_getPage, direct, if_neg (by omega), h.clean.load_eq hsize, hzero]
    rw [rowHeadAt, Query.eval_bind_ok _ _ hpage]
    simp only []
    rw [if_neg (by omega), if_neg (by decide), hword, if_neg hfree]
    rfl
  have hrd : ∀ p e, direct pg.load pg.sb p = .err e → ∀ what, e ≠ .notFound what := by
    intro p e hp what
    unfold direct at hp
    split at hp
    · cases hp
      exact fun h => by cases h
    · next hlt =>
        rw [h.clean.load_eq (Nat.not_le.mp hlt)] at hp
        cases hp
  obtain ⟨L, hL, rfl⟩ := h.stores
  obtain ⟨avail, cat, hr⟩ := hL.readable
  obtain ⟨A, u, B, rfl, rfl, hidx⟩ := Seated.split hL.intact.closed.names ht
  have hcat := direct_of_base _ (ask_of_eval hL.clean hr.loadCatalog_run) (fun h => by cases h)
  have hschema := direct_of_base _ (ask_of_eval hL.clean (hr.schemaOf_run
    (show u ∈ A ++ u :: B by simp))) (fun h => by cases h)
  rw [run]
  show (call (answer .row (getRow u.schema.name ⟨0, 2⟩)) pg).1 ≠ _
  rw [answer_direct (hL.clean.coherent.faithful hlow) hL.quiet hL.clean.staged]
  rw [getRow, Query.eval_bind_ok _ _ hcat,
    Query.eval_bind_ok _ _ ((Query.eval_lift _ _ _).trans hidx),
    Query.eval_bind_ok _ _ ((Query.eval_lift _ _ _).trans (at_entry A u B)),
    Query.eval_bind_ok _ _ hschema,
    Query.eval_bind_ok _ _ hhead, decodeRowFitted, Query.eval_bind]
  have hrow := readRow_found hrd pg.sb pg.sb.freeHead "row (deleted)"
  cases hread : (readRow pg.sb.freeHead).eval (direct pg.load pg.sb) pg.sb with
  | ok row => exact fun h => by cases h
  | err e =>
      rw [hread] at hrow
      exact fun h => by cases h; exact hrow rfl
  | panic => exact fun h => by cases h
  | diverge => exact fun h => by cases h

/-! ## Refusals -/

/-- An operation that is refused, whatever its arguments, has changed nothing:
the device, the superblock, what reads answer, and what any caller is answered
from then on who keeps to the ids it was given. -/
theorem refused_changes_nothing {d : Disk} (hq : d.Quiet) {led : Ledger RowId} {pg : Pager Disk}
    (h : Reachable d led pg) {op : Op RowId} {e : StoreError} {pg' : Pager Disk}
    (hrun : run op pg = (.err e, pg')) :
    pg'.dev.medium = pg.dev.medium ∧ pg'.sb = pg.sb ∧
      Superblock.decode (image pg'.dev.view 0) = .ok pg'.sb ∧ pg'.dirty = ∅ ∧
      (∀ read : Op RowId, read.writes = false → (run read pg').1 = (run read pg).1) ∧
      ∀ es, HandedOut es led pg → HandedOut es led pg' ∧
        (history es pg').1 = (history es pg).1 ∧
        (history es pg').2.dev.medium = (history es pg).2.dev.medium ∧
        (history es pg').2.sb = (history es pg).2.sb := by
  obtain ⟨db, hm⟩ := h.mirrored hq
  have hlow := h.noLow hq
  obtain ⟨hstill, hclean, hfaithful⟩ :=
    call_refused hm.clean hm.quiet hlow (steady_method op) hrun
  have halike := hstill.alike hm.quiet
  refine ⟨halike.dev.medium, hstill.sb, hclean.super, hclean.staged, fun read hr => ?_,
    fun es hes => ?_⟩
  · obtain ⟨β, f, q, hread⟩ := method_reads hr
    have hans := answer_direct hfaithful halike.dev.quiet' hclean.staged f q
    rw [halike.load, halike.sb] at hans
    rw [run, run, hread, hans,
      answer_direct (hm.clean.coherent.faithful hlow) hm.quiet hm.clean.staged f q]
  · obtain ⟨hes', hos, hend⟩ := history_alike es hm (hm.still hstill hclean) halike hes
    exact ⟨hes', hos.symm, hend.dev.medium, hend.sb⟩

/-- A table of that name is there already. -/
theorem refused_changes_nothing_family : ∃ ann bob pg e pg',
    Reachable wideDisk [("people", ann), ("people", bob)] pg ∧
    run (.createTable "people") pg = (.err e, pg') ∧ pg'.sb = pg.sb ∧
    (run (.scan "people") pg').1 = (run (.scan "people") pg).1 ∧
    (history [.call (.delete "people" bob), .call .listTables] pg').1 =
      (history [.call (.delete "people" bob), .call .listTables] pg).1 := by
  obtain ⟨ann, bob, pg, h⟩ := family_seated
  have hstep : ∀ id, ((family ann bob).step id (.createTable "people")).1 =
      .error (.duplicate "table 'people'") := by
    intro id
    show ((family ann bob).edited .done ((family ann bob).createTable "people")).1 = _
    rw [Database.createTable, Database.refuse_neg (by decide),
      Database.refuse_pos ⟨_, List.mem_singleton_self _, rfl⟩]
    rfl
  obtain ⟨fresh, hnew, ho, -, -⟩ :=
    happen_mirrored h.mirrored (.call (.createTable "people")) trivial
  cases fresh with
  | none =>
      obtain ⟨op, hop, -, hok⟩ := hnew.room rfl
      cases hop
      obtain ⟨a, db', hbad⟩ := hok ann
      have herr := hstep ann
      rw [hbad] at herr
      cases herr
  | some id =>
      have hrun : run (.createTable "people") pg =
          (.err (.duplicate "table 'people'"), (run (.createTable "people") pg).2) :=
        Prod.ext (ho.trans (congrArg Outcome.ofExcept (hstep id))) rfl
      obtain ⟨-, hsb, -, -, hreads, hlater⟩ :=
        refused_changes_nothing wideDisk_quiet h.reach hrun
      obtain ⟨-, hsame, -, -⟩ := hlater [.call (.delete "people" bob), .call .listTables]
        ⟨show ("people", bob) ∈ _ by simp, trivial, trivial⟩
      exact ⟨ann, bob, pg, _, _, h.reach, hrun, hsb, hreads _ rfl, hsame⟩

/-- A delete with a made-up id is refused, and later another table is created. Only
without the delete does the id then name something. -/
theorem free_list_remembered : ∃ pg₀ pg e pg', formatStore wideDisk = (.ok pg₀, pg₀.dev) ∧
    history [.call (.createTable "t")] pg₀ = ([.ok .done], pg) ∧
    run (.delete "t" ⟨0, 2⟩) pg = (.err e, pg') ∧
    (history [.call (.createTable "u"), .call (.getRow "t" ⟨0, 2⟩)] pg').1 ≠
      (history [.call (.createTable "u"), .call (.getRow "t" ⟨0, 2⟩)] pg).1 := by
  obtain ⟨pg₀, hformat, h₀⟩ := wideDisk_seated
  obtain ⟨pg₀', hformat', -, -, -, hsb⟩ := format_clean wideDisk_quiet
    (show firstDataPage + 1 < wideDisk.sectors / pageSectors by decide)
  rw [hformat] at hformat'
  cases hformat'
  obtain ⟨ha₁, h₁⟩ := @Seated.createTable _ _ _ _ _ h₀ "t" (by decide) (by simp) (by decide)
  obtain ⟨ha₂, h₂⟩ := @Seated.createTable _ _ _ _ _ h₁ "u" (by decide) (by simp [Table.new])
    (by decide)
  generalize hpg : (run (.createTable "t") pg₀).2 = pg at h₁ ha₂ h₂
  generalize hpg₂ : (run (.createTable "u") pg).2 = pg₂ at h₂
  have hrun₁ : run (.createTable "t") pg₀ = (.ok .done, pg) := Prod.ext ha₁ hpg
  have hrun₂ : run (.createTable "u") pg = (.ok .done, pg₂) := Prod.ext ha₂ hpg₂
  obtain ⟨hzero₁, hfree₁, -⟩ := createTable_super h₀.mirrored hrun₁
  have hfree : pg.sb.freeHead = 0 := hfree₁ (by rw [hsb]; rfl) (by rw [hsb]; rfl)
  -- the delete leaves the superblock of now in the cache
  obtain ⟨pg', hdelete, hcache⟩ := delete_super h₁.mirrored (h₁.reach.noLow wideDisk_quiet)
    (List.mem_singleton_self _) hzero₁ hfree
  obtain ⟨hstill, hclean⟩ :=
    call_err h₁.mirrored.clean h₁.mirrored.quiet (steady_method _) hdelete
  have hm := h₁.mirrored.still hstill hclean
  refine ⟨pg₀, pg, _, pg', hformat, ?_, hdelete, ?_⟩
  · rw [history_call hrun₁]
    rfl
  -- the second table is created with it and without it
  have hcovers : Ledger.Covers [] (.call (.createTable "u") : StoreEvent RowId) := trivial
  obtain ⟨hsame, halike⟩ : (run (.createTable "u") pg).1 = (run (.createTable "u") pg').1 ∧
      Alike (run (.createTable "u") pg).2 (run (.createTable "u") pg').2 :=
    happen_alike h₁.mirrored hm (hstill.alike h₁.mirrored.quiet) _ hcovers
  obtain ⟨fresh, -, -, hm₂, -⟩ := happen_mirrored hm _ hcovers
  have hclean₂ : (run (.createTable "u") pg').2.Clean := hm₂.clean
  have hlow := hm.low hcovers
  rcases hrun₂' : run (.createTable "u") pg' with ⟨o, pg₂'⟩
  rw [hrun₂, hrun₂'] at hsame halike
  rw [hrun₂'] at hclean₂ hlow
  have hsmall : pg'.sb.totalPages < cacheMax := by
    rw [hstill.sb, h₁.total]
    decide
  have hsmall₂ : pg₂'.sb.totalPages < cacheMax := by
    rw [halike.sb, h₂.total]
    decide
  -- only one of the two goes by what is now on the page
  have ht : ⟨Table.new "t", [], []⟩ ∈ [] ++ [⟨Table.new "t", [], []⟩] ++
      ([⟨Table.new "u", [], []⟩] : Database RowId) := by simp
  have hstale := getRow_stale (h₂.mirrored.alike halike hclean₂) hsmall₂ ht
    ((hlow.same hsmall (by decide)).trans hcache) hfree
  obtain ⟨hzero₂, -, hfree₂⟩ := createTable_super h₁.mirrored hrun₂
  have hfresh := getRow_fresh h₂.mirrored (h₂.reach.noLow wideDisk_quiet) ht hzero₂
    (hfree₂ (h₁.mirrored.catalog_ne (by simp)))
  intro heq
  rw [history_call hrun₂, history_call hrun₂', history_cons, history_cons] at heq
  injection heq with _ heq
  injection heq with heq
  exact hfresh (heq.symm.trans hstale)

end Store

end TablesOS
