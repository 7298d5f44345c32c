import GuardedStore.Proofs.TableChanges

/-!
# TableOpening — what opening makes of the state of a database

To open a database is one attempt to take it up (`Image.bootstrap`): a state that is taken up has
both stamps, and its rows are those from before (`Image.TakenUp`).  A database that cannot be taken
up keeps its state, with one exception: that changes are logged ahead is settled before the state is
looked at, and stays settled when the state is refused (`Opening.switched`).

Once a database has been opened, opening it again leaves its state as it is
(`TabularStore.settled_of_openAt`).  With nothing in the way (`Clear`) it is the state alone that
decides whether a database is opened, and one that has been opened can be opened again.
-/

namespace GuardedStore
namespace Table

namespace Image

variable {path : String} {image image' : Image} {versions : List (Int × Int)} {n : Nat}

/-! ## States that are taken up -/

/-- The state of a database whose changes are logged ahead from now on. -/
def logging (image : Image) : Image := { image with writeAhead := true }

theorem logging_of_writeAhead (h : image.writeAhead = true) : image.logging = image := by
  rw [logging, ← h]

/-- What is made of the state of a database that is taken up. -/
structure TakenUp (image image' : Image) : Prop where
  applicationId : image'.applicationId = productId
  versions : (image.versions.getD []).length ≤ 1 →
    image'.versions = some [(productId.toInt, (newestSchema : Int))]
  rows : ∀ table, image.rows = some table → image'.rows = some table
  others : image'.others = image.others

theorem int32?_eq_some {i : Int} {id : Int32} (h : int32? i = some id) : i = id.toInt := by
  unfold int32? at h
  split_ifs at h with hrange
  cases h
  exact (Int32.toInt_ofInt_of_le hrange.1 hrange.2).symm

/-- A version that is recorded is one of this product that is known. -/
theorem version_ok (h : version path versions = .ok n) :
    (versions = [] ∧ n = 0) ∨
      ∃ rest, versions = (productId.toInt, (n : Int)) :: rest ∧ n ≤ newestSchema := by
  unfold version at h
  split at h
  · cases h
    exact .inl ⟨rfl, rfl⟩
  · rename_i id number rest
    split at h
    · cases h
    · rename_i id' hid
      split_ifs at h with hforeign hnegative hlater
      cases h
      rw [int32?_eq_some hid, Decidable.not_not.1 hforeign]
      exact .inr ⟨rest, by rw [Int.toNat_of_nonneg (Int.not_lt.1 hnegative)], Nat.not_lt.1 hlater⟩

/-- A state of an older version gets its table, which was not there. -/
theorem revise_ok (h : revise image n = .ok image') :
    (image.rows = none ∧ image' = { image with
      rows := some .empty, versions := some [(productId.toInt, (newestSchema : Int))] }) ∨
      (newestSchema ≤ n ∧ image' = image) := by
  unfold revise at h
  split_ifs at h with hold
  · split at h
    · cases h
    · rename_i hrows
      cases h
      exact .inl ⟨hrows, rfl⟩
  · cases h
    exact .inr ⟨Nat.not_lt.1 hold, rfl⟩

theorem bootstrap_ok (h : image.bootstrap path = .ok image') :
    ∃ n revised, version path (image.versions.getD []) = .ok n ∧
      revise { image with versions := some (image.versions.getD []) } n = .ok revised ∧
      image' = { revised with applicationId := productId } := by
  unfold bootstrap at h
  split_ifs at h
  simp only at h
  split at h
  · cases h
  · rename_i n hversion
    split at h
    · cases h
    · rename_i revised hrevise
      cases h
      exact ⟨n, revised, hversion, hrevise, rfl⟩

theorem takenUp_of_bootstrap (h : image.bootstrap path = .ok image') : image.TakenUp image' := by
  rcases bootstrap_ok h with ⟨n, revised, hversion, hrevise, rfl⟩
  rcases revise_ok hrevise with ⟨hrows, rfl⟩ | ⟨hnew, rfl⟩
  · refine ⟨rfl, fun _ => rfl, ?_, rfl⟩
    intro table htable
    cases hrows.symm.trans htable
  · refine ⟨rfl, ?_, fun _ htable => htable, rfl⟩
    intro hsingle
    rcases version_ok hversion with ⟨-, rfl⟩ | ⟨rest, hversions, hknown⟩
    · cases hnew
    · rw [hversions] at hsingle ⊢
      have hlength : rest.length = 0 := Nat.le_zero.1 (Nat.le_of_succ_le_succ hsingle)
      rw [List.length_eq_zero_iff.1 hlength, Nat.le_antisymm hknown hnew]

/-- Nothing has to be done to a state with both stamps. -/
theorem bootstrap_stamped (happlication : image.applicationId = productId)
    (hversions : image.versions = some versions) (hversion : version path versions = .ok n)
    (hnew : newestSchema ≤ n) : image.bootstrap path = .ok image := by
  have hadmitted : ¬ (image.applicationId ≠ 0 ∧ image.applicationId ≠ productId) :=
    fun hforeign => hforeign.2 happlication
  have hsame : { image with versions := some versions, applicationId := productId } = image := by
    rw [← happlication, ← hversions]
  simp only [bootstrap, if_neg hadmitted, hversions, Option.getD_some, hversion, revise,
    if_neg (Nat.not_lt.2 hnew), hsame]

/-- A state that has been taken up is taken up again as it is. -/
theorem bootstrap_of_bootstrap (h : image.bootstrap path = .ok image') :
    image'.bootstrap path = .ok image' := by
  rcases bootstrap_ok h with ⟨n, revised, hversion, hrevise, rfl⟩
  rcases revise_ok hrevise with ⟨hrows, rfl⟩ | ⟨hnew, rfl⟩
  · have hnewest : version path [(productId.toInt, (newestSchema : Int))] = .ok newestSchema := rfl
    exact bootstrap_stamped rfl rfl hnewest (Nat.le_refl _)
  · exact bootstrap_stamped rfl rfl hversion hnew

theorem writeAhead_of_bootstrap (h : image.bootstrap path = .ok image') :
    image'.writeAhead = image.writeAhead := by
  rcases bootstrap_ok h with ⟨n, revised, -, hrevise, rfl⟩
  rcases revise_ok hrevise with ⟨-, rfl⟩ | ⟨-, rfl⟩
  · rfl
  · rfl

/-- Whether changes are logged ahead does not matter for whether a state is taken up. -/
theorem bootstrap_logging (path : String) (image : Image) :
    image.logging.bootstrap path = (image.bootstrap path).map logging := by
  rw [bootstrap]
  show (if image.applicationId ≠ 0 ∧ image.applicationId ≠ productId then _ else _) = _
  rw [bootstrap]
  split_ifs
  · rfl
  · have hversions : image.logging.versions = image.versions := rfl
    simp only [hversions]
    cases version path (image.versions.getD []) with
    | error e => rfl
    | ok n =>
        by_cases hold : n < newestSchema
        · cases hrows : image.rows <;> simp [revise, hold, hrows, logging, Except.map]
        · simp [revise, hold, logging, Except.map]

end Image

open Connection
open Disk (Spares)

variable {d d' : Disk} {names : List String} {text : String} {id : Nat} {a : Address}
  {c c' : Connection} {image : Image} {r : Except StoreError Connection}

/-! ## What is found -/

/-- No log is left beside a file, or an empty one. -/
def Silent (names : List String) (d : Disk) : Prop := (d.contentUnder (log names)).raw.size = 0

theorem imageUnder_makeParents (d : Disk) (path : String) (names : List String) :
    imageUnder (d.makeParents path).1 names = imageUnder d names := by
  rw [imageUnder, Disk.contentUnder_makeParents, ← imageUnder]

theorem Silent.makeParents (h : Silent names d) (path : String) :
    Silent names (d.makeParents path).1 := by
  rwa [Silent, Disk.contentUnder_makeParents]

/-- A state is left as it is, or changes of it are logged ahead from now on. -/
def Switched (canLog : Bool) (before after : Image) : Prop :=
  after = before ∨ canLog = true ∧ after = before.logging

theorem Switched.writeAhead {before after : Image} {canLog : Bool}
    (h : Switched canLog before after) (hlogs : before.writeAhead = true) :
    after.writeAhead = true := by
  rcases h with rfl | ⟨-, rfl⟩
  · exact hlogs
  · rfl

theorem Switched.takenUp {before after : Image} {canLog : Bool} (h : Switched canLog before after)
    (htaken : after.bootstrap text = .ok image) : before.TakenUp image := by
  have hup := Image.takenUp_of_bootstrap htaken
  rcases h with rfl | ⟨-, rfl⟩
  · exact hup
  · exact ⟨hup.applicationId, hup.versions, hup.rows, hup.others⟩

namespace Connection.Reads

/-- To settle that changes are logged ahead is all that is done to a state before it is looked
at. -/
theorem startLog (h : c.Reads names id d) (hstart : c.startLog d = (d', r)) :
    ∃ image, Switched c.canLog c.image image ∧ Table.imageUnder d' names = some image ∧
      ∀ c', r = .ok c' → c'.Reads names id d' ∧ c'.image = image := by
  cases logStart_of_startLog hstart with
  | idle =>
      refine ⟨c.image, .inl rfl, h.imageUnder, ?_⟩
      intro c' hc'
      cases hc'
      exact ⟨h, rfl⟩
  | unsaved => exact ⟨c.image, .inl rfl, h.imageUnder, nofun⟩
  | unkept hcan hsave =>
      have hsaved : Connection.Reads { c with image := c.image.logging } names id d' :=
        h.save hsave rfl rfl
      exact ⟨c.image.logging, .inr ⟨hcan, rfl⟩, hsaved.imageUnder, nofun⟩
  | begun hcan hfile hsave hkeep =>
      cases h.file.symm.trans hfile
      have hsaved : Connection.Reads { c with image := c.image.logging } names id _ :=
        h.save hsave rfl rfl
      have hspares := (within_keepLog? hkeep).spares hsaved.sound (apart_besides h.ne_nil)
        (List.forall_mem_nil _)
      have hkept := hsaved.keep hspares
      refine ⟨c.image.logging, .inr ⟨hcan, rfl⟩, hkept.imageUnder, ?_⟩
      intro c' hc'
      cases hc'
      exact ⟨⟨hkept.sound, h.file, hkept.entry, hkept.image⟩, rfl⟩

end Connection.Reads

/-! ## Logs that are left -/

namespace Silent

variable {found : Bool}

theorem forget (h : Silent names d) (other : List String) : Silent names (d.forget other) := by
  unfold Silent Disk.contentUnder at h ⊢
  rcases Disk.entryAt?_forget_cases d (log names) other with hsame | hnone
  · simpa only [hsame, Disk.content_forget] using h
  · simp only [hnone]
    rfl

theorem not_found (h : Silent names d) (hclear : clearLog? d names false = some (d', found)) :
    found = false := by
  unfold clearLog? at hclear
  split at hclear
  · cases hclear
    rfl
  · cases hclear
  · rename_i id hentry
    have hempty : (d.bytes id).size = 0 := by
      rwa [Silent, Disk.contentUnder_of_file hentry] at h
    rw [if_pos hempty] at hclear
    cases hclear
    rfl

end Silent

/-- A connection can log changes ahead only if the address allows it. -/
theorem canLog_of_connect (haddress : Address.ofText? text = some a) (hkept : a.isFleeting = false)
    (hconnect : connect d text = (d', .ok c)) (hcan : c.canLog = true) : a.canLog = true := by
  rcases connect_ok haddress hkept hconnect with ⟨names, wanted, d₁, id, -, -, -, hattach⟩
  rcases hattach with ⟨-, -, hattach⟩ | ⟨-, hattach⟩
  · rw [(attachFrozen_ok hattach).1] at hcan
    cases hcan
  · rcases attach_ok hattach with ⟨-, -, -, -, -, hallowed, -⟩ | ⟨image, -, rfl⟩
    · exact hallowed
    · exact hcan

/-- Without a log that is left, changes are logged ahead from now on if the address allows it. -/
theorem writeAhead_of_startLog (haddress : Address.ofText? text = some a)
    (hkept : a.isFleeting = false) (hnames : Disk.spell [] (Disk.parts a.path) = names)
    (hsound : d.IsSound) (hsilent : Silent names d) (hcan : a.canLog = true) {d₁ : Disk}
    (hconnect : connect d text = (d₁, .ok c)) (hstart : c.startLog d₁ = (d', .ok c')) :
    c'.image.writeAhead = true := by
  rcases connect_ok haddress hkept hconnect with
    ⟨names', wanted, d₂, id, hresolve, -, hopen, hattach⟩
  cases (Disk.resolve?_eq_spell hresolve).trans hnames
  have hsilent₂ : Silent names d₂ := by
    rw [Silent, Disk.contentUnder_openNamed? hsound hopen]
    exact hsilent
  rcases hattach with ⟨hfrozen, -⟩ | ⟨-, hattach⟩
  · simp [Address.canLog, hfrozen] at hcan
  · rcases attach_ok hattach with
      ⟨d₃, d₄, found, image, free, -, hjournal, hlog, hlogged, -, rfl⟩ | ⟨image, -, rfl⟩
    · have hsilent₃ : Silent names d₃ := by
        rcases clearJournal?_eq hjournal with rfl | rfl
        · exact hsilent₂
        · exact hsilent₂.forget _
      rw [hsilent₃.not_found hlog, Bool.false_or] at hlogged
      cases logStart_of_startLog hstart with
      | idle => exact hlogged
      | begun => rfl
    · cases logStart_of_startLog hstart with
      | idle hidle =>
          -- nothing keeps such a connection from logging ahead
          simp [plainConnection, hcan] at hidle
      | begun => rfl

/-! ## Opening -/

/-- What an attempt to open the database in a file comes to. -/
inductive Opening (a : Address) (text : String) (names : List String) (d d' : Disk) :
    Except StoreError TabularStore → Prop where
  -- the state is as it was
  | kept (e : StoreError) (hsame : imageUnder d' names = imageUnder d names) :
      Opening a text names d d' (.error e)
  -- the state was refused when it was settled already that changes are logged ahead
  | switched (e : StoreError) {image : Image} (hcan : a.canLog = true)
      (hfound : imageUnder d names = some image)
      (hleft : imageUnder d' names = some image.logging) : Opening a text names d d' (.error e)
  | taken {found image image' : Image} (hfound : imageUnder d names = some found)
      (hswitched : Switched a.canLog found image)
      (hlogs : Silent names d → a.canLog = true → image.writeAhead = true)
      (htaken : image.bootstrap text = .ok image') (hleft : imageUnder d' names = some image') :
      Opening a text names d d' (.ok ⟨text, false⟩)

theorem Opening.of_switched {found : Image} (e : StoreError)
    (hfound : imageUnder d names = some found) (hswitched : Switched a.canLog found image)
    (hleft : imageUnder d' names = some image) : Opening a text names d d' (.error e) := by
  rcases hswitched with rfl | ⟨hcan, rfl⟩
  · exact .kept e (hleft.trans hfound.symm)
  · exact .switched e hcan hfound hleft

/-- What a connection reads that has been made to open a database: what the file held before. -/
theorem reads_of_connect {d₁ : Disk} (hsound : d.IsSound) (hfile : namesOf? text = some names)
    (hparents : d.makeParents text = (d₁, true)) (hconnect : connect d₁ text = (d', .ok c)) :
    d₁.IsSound ∧ ∃ id, c.Reads names id d' ∧ imageUnder d names = some c.image := by
  have hsound₁ := hsound.makeParents text
  have himage₁ := imageUnder_makeParents d text names
  rw [hparents] at hsound₁ himage₁
  have hlooked := connect_looked hsound₁ text
  rw [hconnect] at hlooked
  rcases (hlooked.serves c rfl).reads hlooked.sound hfile with ⟨id, hreads⟩
  have himage := (hlooked.imageUnder hfile).trans himage₁
  exact ⟨hsound₁, id, hreads, himage.symm.trans hreads.imageUnder⟩

theorem opening_of_openAt {r : Except StoreError TabularStore} (hsound : d.IsSound)
    (haddress : Address.ofText? text = some a) (hkept : a.isFleeting = false)
    (hnames : Disk.spell [] (Disk.parts a.path) = names)
    (hopen : TabularStore.openAt d text = (d', r)) : Opening a text names d d' r := by
  have hfile : namesOf? text = some names := by
    rw [namesOf?, haddress]
    simp [hkept, hnames]
  have himage₁ := imageUnder_makeParents d text names
  -- what is settled is settled because the address allows it
  have hallowed : ∀ {d₁ d₂ c before after}, connect d₁ text = (d₂, .ok c) →
      Switched c.canLog before after → Switched a.canLog before after := by
    intro d₁ d₂ c before after hconnect hswitched
    exact hswitched.imp_right fun h => ⟨canLog_of_connect haddress hkept hconnect h.1, h.2⟩
  cases TabularStore.openAttempt_of_openAt hopen with
  | unmade e hparents =>
      rw [hparents] at himage₁
      exact .kept e himage₁
  | unconnected hparents hconnect =>
      have hsound₁ := hsound.makeParents text
      rw [hparents] at himage₁ hsound₁
      have hlooked := connect_looked hsound₁ text
      rw [hconnect] at hlooked
      exact .kept _ ((hlooked.imageUnder hfile).trans himage₁)
  | unstarted hparents hconnect hstart =>
      rcases reads_of_connect hsound hfile hparents hconnect with ⟨-, id, hreads, hfound⟩
      rcases hreads.startLog hstart with ⟨image, hswitched, hleft, -⟩
      exact .of_switched _ hfound (hallowed hconnect hswitched) hleft
  | refused e hparents hconnect hstart =>
      rcases reads_of_connect hsound hfile hparents hconnect with ⟨-, id, hreads, hfound⟩
      rcases hreads.startLog hstart with ⟨image, hswitched, hleft, -⟩
      exact .of_switched e hfound (hallowed hconnect hswitched) hleft
  | @opened d₁ d₂ d₃ _ c c' image' hparents hconnect hstart hbegin hboot hsave =>
      rcases reads_of_connect hsound hfile hparents hconnect with ⟨hsound₁, id, hreads, hfound⟩
      rcases hreads.startLog hstart with ⟨image, hswitched, hleft, hok⟩
      rcases hok c' rfl with ⟨hreads', rfl⟩
      have hsaved : Connection.Reads { c' with image := image' } names id d' :=
        hreads'.save hsave rfl rfl
      refine .taken hfound (hallowed hconnect hswitched) ?_ hboot hsaved.imageUnder
      intro hsilent hcan
      have hsilent₁ : Silent names d₁ := by
        have hmade := hsilent.makeParents text
        rwa [hparents] at hmade
      exact writeAhead_of_startLog haddress hkept hnames hsound₁ hsilent₁ hcan hconnect hstart

/-- Where no log is left beside the file, or the file logs ahead itself, there is room for all changes
that come after a database has been opened. -/
theorem hasRoom_of_openAt {s : TabularStore} (hsound : d.IsSound)
    (hopen : TabularStore.openAt d text = (d', .ok s))
    (hclaimed : ∀ names, namesOf? text = some names → Silent names d ∨ LogsAhead names d) :
    HasRoom text d' := by
  intro names hfile
  rcases address_of_namesOf? hfile with ⟨a, haddress, hkept, hnames⟩
  cases hcan : a.canLog with
  | true =>
      have hsound' := TabularStore.isSound_openAt hsound text
      rw [hopen] at hsound'
      cases opening_of_openAt hsound haddress hkept hnames hopen with
      | @taken found image image' hfound hswitched hlogs htaken hleft =>
          have hlogged : image.writeAhead = true := by
            rcases hclaimed names hfile with hsilent | ⟨before, hbefore, hahead⟩
            · exact hlogs hsilent hcan
            · cases hfound.symm.trans hbefore
              exact hswitched.writeAhead hahead
          exact .inr ⟨hsound', image', hleft,
            (Image.writeAhead_of_bootstrap htaken).trans hlogged⟩
  | false =>
      -- the first state was saved with a journal
      rcases attach_of_openAt hopen haddress hkept with
        ⟨names', id, d₁, d₂, d₃, c, c', image, hfile', hattach, hstart, -, hsave⟩
      cases hfile'.symm.trans hfile
      rcases attach_ok hattach with ⟨-, -, -, -, -, hallowed, -⟩ | ⟨image₁, -, rfl⟩
      · cases hcan.symm.trans hallowed
      · rw [startLog_of_canLog hcan] at hstart
        cases hstart
        exact .inl (canWriteTo_iff.1 (canWriteTo_of_save hsave).2).2

/-! ## Files with nothing in the way -/

/-- A file holds a database, and nothing keeps it from being opened and changed: nothing is beside
it, and its path and its name leave room for what will be. -/
structure Clear (a : Address) (text : String) (names : List String) (id : Nat) (image : Image)
    (d : Disk) : Prop where
  address : Address.ofText? text = some a
  kept : a.isFleeting = false
  writable : a.isWritable = true
  parents : d.HasParents text
  resolved : d.resolve? a.path = some names
  short : d.pathLength names ≤ longestPath
  entry : d.entryAt? names = some (.file id)
  found : (d.content id).image? = some image
  canLog : image.writeAhead = true → a.canLog = true
  alone : ∀ near ∈ besides names, d.entryAt? near = none
  named : ∀ near ∈ besides names, near.getLast?.any Disk.isName = true

namespace Clear

variable {image' : Image}

theorem noJournal (h : Clear a text names id image d) : d.entryAt? (journal names) = none :=
  h.alone _ (by simp [besides])

theorem noLog (h : Clear a text names id image d) : d.entryAt? (log names) = none :=
  h.alone _ (by simp [besides])

theorem noIndex (h : Clear a text names id image d) : d.entryAt? (index names) = none :=
  h.alone _ (by simp [besides])

theorem canWriteTo (h : Clear a text names id image d) {near : List String}
    (hmem : near ∈ besides names) : canWriteTo d near = true := by
  simp [Connection.canWriteTo, h.alone near hmem, h.named near hmem]

/-- Nothing is in the way of a state that has been saved. -/
theorem setContent (h : Clear a text names id image d)
    (hlogs : image'.writeAhead = true → a.canLog = true) :
    Clear a text names id image' (d.setContent id (.database image')) := by
  refine ⟨h.address, h.kept, h.writable, h.parents.keep (.of_entries rfl), ?_, h.short, h.entry, ?_,
    hlogs, h.alone, h.named⟩
  · rw [Disk.resolve?_setContent]
    exact h.resolved
  · rw [Disk.content_setContent]
    rfl

theorem keepLog? (h : Clear a text names id image d) :
    Connection.keepLog? d names true = some (d, true) := by
  have hgone : (d.forget (log names)).forget (index names) = d := by
    rw [Disk.forget_of_none h.noLog, Disk.forget_of_none h.noIndex]
  have hwrite : Connection.canWriteTo d (log names) = true := h.canWriteTo (by simp [besides])
  simp [Connection.keepLog?, hwrite, h.noIndex, hgone]

theorem connect (h : Clear a text names id image d) : Table.connect d text =
    (d, .ok ⟨image, some (names, id), true, a.canLog, image.writeAhead, false⟩) := by
  have hthawed := Address.thawed h.kept h.writable
  have hlength := Nat.not_lt.2 h.short
  simp only [Table.connect, h.address, connectTo, h.kept, h.resolved, hlength, Disk.openNamed?,
    h.entry, hthawed, attach, h.writable, clearJournal?, h.noJournal, clearLog?, h.noLog, h.found,
    Bool.false_eq_true, if_false, Option.any_some, Bool.false_or]
  cases hmode : image.writeAhead with
  | false => simp
  | true =>
      have hcan := h.canLog hmode
      simp [h.keepLog?, hcan]

theorem save (h : Clear a text names id image d) (canLog logs : Bool) (image' : Image) :
    Connection.save ⟨image, some (names, id), true, canLog, logs, false⟩ d image' =
      .ok (d.setContent id (.database image')) := by
  have hwrite : Connection.canWriteTo d (journal names) = true := h.canWriteTo (by simp [besides])
  have hgone : d.forget (journal names) = d := Disk.forget_of_none h.noJournal
  cases logs <;> simp [Connection.save, hwrite, hgone]

/-- A state for which it has been settled whether changes are logged ahead. -/
def settled (a : Address) (image : Image) : Image := if a.canLog then image.logging else image

theorem bootstrap_settled (a : Address) (path : String) (image : Image) :
    (settled a image).bootstrap path = (image.bootstrap path).map (settled a) := by
  cases hcan : a.canLog with
  | true =>
      have hlogging : settled a = Image.logging := funext fun image => by simp [settled, hcan]
      rw [hlogging]
      exact Image.bootstrap_logging path image
  | false =>
      have hsame : settled a = id := funext fun image => by simp [settled, hcan]
      rw [hsame]
      cases hbootstrap : image.bootstrap path <;> exact hbootstrap

theorem startLog (h : Clear a text names id image d) : ∃ d',
    Connection.startLog ⟨image, some (names, id), true, a.canLog, image.writeAhead, false⟩ d =
      (d', .ok ⟨settled a image, some (names, id), true, a.canLog, a.canLog, false⟩) ∧
        Clear a text names id (settled a image) d' := by
  cases hcan : a.canLog with
  | false =>
      have hmode : image.writeAhead = false := by
        rw [← Bool.not_eq_true]
        intro hmode
        rw [h.canLog hmode] at hcan
        cases hcan
      refine ⟨d, ?_, by simpa [settled, hcan] using h⟩
      simp [Connection.startLog, settled, hcan, hmode]
  | true =>
      cases hmode : image.writeAhead with
      | true =>
          have hsame := Image.logging_of_writeAhead hmode
          refine ⟨d, ?_, by simpa [settled, hcan, hsame] using h⟩
          simp [Connection.startLog, settled, hcan, hsame]
      | false =>
          have hclear : Clear a text names id image.logging
              (d.setContent id (.database image.logging)) := h.setContent fun _ => hcan
          have hsave := h.save true false image.logging
          refine ⟨_, ?_, by simpa [settled, hcan] using hclear⟩
          simp only [Image.logging] at hsave hclear
          simp [Connection.startLog, settled, hcan, hsave, hclear.keepLog?, Image.logging]

theorem openAt_error {e : StoreError} (h : Clear a text names id image d)
    (hrefused : image.bootstrap text = .error e) :
    ∃ d', TabularStore.openAt d text = (d', .error e) := by
  rcases h.startLog with ⟨d₁, hstart, -⟩
  have hsettled := bootstrap_settled a text image
  rw [hrefused] at hsettled
  refine ⟨d₁, ?_⟩
  simp [TabularStore.openAt, Disk.makeParents_of_hasParents h.parents, h.connect, hstart,
    Connection.begin, hsettled, Except.map]

theorem openAt_ok (h : Clear a text names id image d)
    (htaken : image.bootstrap text = .ok image') :
    ∃ d', TabularStore.openAt d text = (d', .ok ⟨text, false⟩) ∧
      Clear a text names id (settled a image') d' := by
  rcases h.startLog with ⟨d₁, hstart, hclear⟩
  have hsettled := bootstrap_settled a text image
  rw [htaken] at hsettled
  have hsave := hclear.save a.canLog a.canLog (settled a image')
  refine ⟨_, ?_, hclear.setContent ?_⟩
  · simp [TabularStore.openAt, Disk.makeParents_of_hasParents h.parents, h.connect, hstart,
      Connection.begin, hsettled, Except.map, hsave]
  · intro hmode
    cases hcan : a.canLog with
    | true => rfl
    | false =>
        rw [settled, hcan, if_neg Bool.false_ne_true, Image.writeAhead_of_bootstrap htaken] at hmode
        rw [← hcan]
        exact h.canLog hmode

end Clear

end Table

namespace TabularStore

open Table
open Table.Connection (unusable)

variable {d : Disk} {path : String} {a : Address} {names : List String}

/-- A database that is refused keeps its state, except that changes of it may be logged ahead from
then on.  One that is taken up has both stamps and keeps its rows, and opening it again leaves it as
it is, unless another owner has left a log beside a file that did not log ahead.  With nothing in the
way a database is refused for its state alone, and one that is taken up can be opened again. -/
theorem settled_of_openAt (hsound : d.IsSound) (haddress : Address.ofText? path = some a)
    (hkept : a.isFleeting = false) (hnames : Disk.spell [] (Disk.parts a.path) = names) :
    (∀ d' e, openAt d path = (d', .error e) →
      imageUnder d' names = imageUnder d names ∨
        (a.canLog = true ∧ imageUnder d' names = (imageUnder d names).map Image.logging)) ∧
    (∀ d' s, openAt d path = (d', .ok s) → ∃ image image',
      imageUnder d names = some image ∧ imageUnder d' names = some image' ∧ image.TakenUp image' ∧
        ((a.canLog = true → Silent names d ∨ image.writeAhead = true) →
          ∀ d'' r, openAt d' path = (d'', r) → imageUnder d'' names = some image')) ∧
    ∀ id image, Clear a path names id image d →
      (∀ e, image.bootstrap path = .error e → ∃ d', openAt d path = (d', .error e)) ∧
      ∀ image', image.bootstrap path = .ok image' → ∃ d' d'',
        openAt d path = (d', .ok ⟨path, false⟩) ∧ openAt d' path = (d'', .ok ⟨path, false⟩) := by
  refine ⟨?_, ?_, ?_⟩
  · intro d' e hopen
    cases opening_of_openAt hsound haddress hkept hnames hopen with
    | kept _ hsame => exact .inl hsame
    | switched _ hcan hfound hleft => exact .inr ⟨hcan, by rw [hleft, hfound]; rfl⟩
  · intro d' s hopen
    cases opening_of_openAt hsound haddress hkept hnames hopen with
    | @taken found image image' hfound hswitched hlogs htaken hleft =>
        refine ⟨found, image', hfound, hleft, hswitched.takenUp htaken, ?_⟩
        intro hlogged d'' r hagain
        have hsound' : d'.IsSound := by
          have hopened := isSound_openAt hsound path
          rwa [hopen] at hopened
        -- whether or not changes are logged ahead was settled the first time
        have hstays : ∀ after, Switched a.canLog image' after → after = image' := by
          rintro after (rfl | ⟨hcan, rfl⟩)
          · rfl
          · have himage : image.writeAhead = true := by
              rcases hlogged hcan with hsilent | hfound'
              · exact hlogs hsilent hcan
              · exact hswitched.writeAhead hfound'
            exact Image.logging_of_writeAhead ((Image.writeAhead_of_bootstrap htaken).trans himage)
        cases opening_of_openAt hsound' haddress hkept hnames hagain with
        | kept _ hsame => exact hsame.trans hleft
        | switched _ hcan hfound' hleft' =>
            cases hleft.symm.trans hfound'
            rw [hleft', hstays _ (.inr ⟨hcan, rfl⟩)]
        | taken hfound' hswitched' _ htaken' hleft' =>
            cases hleft.symm.trans hfound'
            rw [hstays _ hswitched'] at htaken'
            cases (Image.bootstrap_of_bootstrap htaken).symm.trans htaken'
            exact hleft'
  · intro id image hclear
    refine ⟨fun e hrefused => hclear.openAt_error hrefused, ?_⟩
    intro image' htaken
    rcases hclear.openAt_ok htaken with ⟨d', hopen, hclear'⟩
    have htaken' := Clear.bootstrap_settled a path image'
    rw [Image.bootstrap_of_bootstrap htaken] at htaken'
    rcases hclear'.openAt_ok htaken' with ⟨d'', hagain, -⟩
    exact ⟨d', d'', hopen, hagain⟩

/-- A database of this product with a table that is used. -/
def usedImage : Image :=
  ⟨0, false, some [(productId.toInt, 1)], some (.ofList [("/a", "v")]), ["notes"]⟩

theorem settled_of_openAt_used : ∃ d d' d'' s image', imageUnder d ["store"] = some usedImage ∧
    openAt d "store" = (d', .ok s) ∧ imageUnder d' ["store"] = some image' ∧
      usedImage.TakenUp image' ∧ openAt d' "store" = (d'', .ok s) ∧
        imageUnder d'' ["store"] = some image' := by
  let d := (Disk.empty.place ["store"] (.database usedImage)).1
  have hsound : d.IsSound := Disk.isSound_empty.place _ _
  have hfound : imageUnder d ["store"] = some usedImage := rfl
  have haddress : Address.ofText? "store" = some (.ofPath "store") := rfl
  have hclear : Clear (.ofPath "store") "store" ["store"] 0 usedImage d := by
    refine ⟨haddress, rfl, rfl, .inl rfl, rfl, by decide, rfl, rfl, nofun, ?_, ?_⟩
    · simp only [Connection.besides, List.forall_mem_cons]
      exact ⟨rfl, rfl, rfl, List.forall_mem_nil _⟩
    · decide
  rcases settled_of_openAt hsound haddress rfl rfl with ⟨-, hkept, hopens⟩
  rcases (hopens 0 usedImage hclear).2 _ rfl with ⟨d', d'', hopen, hagain⟩
  rcases hkept d' _ hopen with ⟨image, image', hfound', hleft, htaken, hstays⟩
  cases hfound.symm.trans hfound'
  exact ⟨d, d', d'', _, image', hfound, hopen, hleft, htaken, hagain,
    hstays (fun _ => .inl rfl) d'' _ hagain⟩

/-- A database of another product. -/
def foreignImage : Image := ⟨42, false, none, none, ["notes"]⟩

/-- The database is refused, yet it is left with changes logged ahead.  Before this, who cannot log
is told whose database it is; afterwards it cannot even be read without a log. -/
theorem exists_refused_logging : ∃ d d' e, d.IsSound ∧
    imageUnder d ["store"] = some foreignImage ∧ openAt d "store" = (d', .error e) ∧
      imageUnder d' ["store"] = some foreignImage.logging ∧ foreignImage.logging ≠ foreignImage ∧
        (openAt d "file:store?nolock=1").2 =
          .error (.storage (.foreignDatabase "file:store?nolock=1" 42)) ∧
        (openAt d' "file:store?nolock=1").2 = .error unusable := by
  exact ⟨(Disk.empty.place ["store"] (.database foreignImage)).1, _, _,
    Disk.isSound_empty.place _ _, rfl, rfl, rfl, by decide, rfl, rfl⟩

end TabularStore
end GuardedStore
