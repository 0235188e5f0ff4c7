import TreeBuild.Proofs.Project.Discovery

/-!
# Following and resolving

A path is read in two ways. To reach what is there it is followed through the links that it meets, forty
of them at most. To be written without links it is resolved: a link that has been read once is remembered,
and one that is met while it is being read ends the reading.

Where a path leads anywhere, both come to the same location. The reason is that the number of links on a
way is a property of the way: what is left of it while a link is being read needs no more links than the
link itself, so the link cannot be met again.
-/
namespace TreeBuild.Tree

/-- Where the target of a link in a directory is read from. -/
def startOf (directory : Location) (target : String) : Location :=
  if target.toList.head? = some '/' then [] else directory

/-- A location that is named in full, with no link on the way to it. -/
structure IsDirect (tree : Tree) (location : Location) : Prop where
  names : ∀ part ∈ location, Path.IsName part
  noLink : ∀ front, front <+: location → ∀ target, tree.get? front ≠ some (.link target)

namespace IsDirect

variable {tree : Tree} {location : Location}

/-- The top of a tree is reached directly. -/
theorem root (tree : Tree) : tree.IsDirect [] where
  names := by simp
  noLink front start target link := by
    rw [List.prefix_nil.mp start] at link
    cases link

/-- What is above a place that is reached directly is reached directly. -/
theorem above (direct : tree.IsDirect location) {front : Location} (start : front <+: location) :
    tree.IsDirect front where
  names part member := direct.names part (start.subset member)
  noLink first before := direct.noLink first (before.trans start)

/-- A place below one that is reached directly is, too, if there is no link at it. -/
theorem below (direct : tree.IsDirect location) {part : String} (name : Path.IsName part)
    (noLink : ∀ target, tree.get? (location ++ [part]) ≠ some (.link target)) :
    tree.IsDirect (location ++ [part]) where
  names other member :=
    (List.mem_append.mp member).elim (direct.names other) fun last => List.mem_singleton.mp last ▸ name
  noLink front start target := by
    rcases List.prefix_concat_iff.mp start with rfl | before
    · exact noLink target
    · exact direct.noLink front before target

/-- No link is met where a location is followed from the root. -/
theorem unlinked (direct : tree.IsDirect location) : tree.Unlinked [] location := by
  intro front start target
  have names : ∀ part ∈ front, Path.IsName part := fun part member =>
    direct.names part (start.subset member)
  rw [Location.follow_of_isName names, List.nil_append]
  exact direct.noLink front start target

end IsDirect

/-- Parts lead from one location to another through a number of links. -/
inductive Leads (tree : Tree) : Nat → Location → List String → Location → Prop
  | here (location : Location) : Leads tree 0 location [] location
  | back {links : Nat} {location found : Location} {rest : List String}
      (further : Leads tree links location.dropLast rest found) :
      Leads tree links location (".." :: rest) found
  | down {links : Nat} {location found : Location} {part : String} {rest : List String}
      (name : Path.IsName part)
      (noLink : ∀ target, tree.get? (location ++ [part]) ≠ some (.link target))
      (further : Leads tree links (location ++ [part]) rest found) :
      Leads tree links location (part :: rest) found
  | link {links : Nat} {location found : Location} {part target : String} {rest : List String}
      (name : Path.IsName part) (isLink : tree.get? (location ++ [part]) = some (.link target))
      (further : Leads tree links (startOf location target) (Path.partsOf target ++ rest) found) :
      Leads tree (links + 1) location (part :: rest) found

namespace Leads

variable {tree : Tree} {links : Nat} {location found : Location} {parts : List String}

/-- The first part of a way leads back, down or through a link. -/
theorem cons_cases {part : String} {rest : List String}
    (leads : tree.Leads links location (part :: rest) found) :
    part = ".." ∧ tree.Leads links location.dropLast rest found ∨
      Path.IsName part ∧
        ((∀ target, tree.get? (location ++ [part]) ≠ some (.link target)) ∧
            tree.Leads links (location ++ [part]) rest found ∨
          ∃ fewer target, links = fewer + 1 ∧ tree.get? (location ++ [part]) = some (.link target) ∧
            tree.Leads fewer (startOf location target) (Path.partsOf target ++ rest) found) := by
  cases leads with
  | back further => exact .inl ⟨rfl, further⟩
  | down name noLink further => exact .inr ⟨name, .inl ⟨noLink, further⟩⟩
  | @link fewer _ _ _ target _ name isLink further =>
    exact .inr ⟨name, .inr ⟨fewer, target, rfl, isLink, further⟩⟩

/-- A way can be cut anywhere, and the links on it are those on its pieces. -/
theorem split {front back : List String} (leads : tree.Leads links location (front ++ back) found) :
    ∃ first second middle, links = first + second ∧ tree.Leads first location front middle ∧
      tree.Leads second middle back found := by
  generalize whole : front ++ back = parts at leads
  induction leads generalizing front with
  | here location =>
    obtain ⟨rfl, rfl⟩ := List.append_eq_nil_iff.mp whole
    exact ⟨0, 0, location, rfl, .here location, .here location⟩
  | @back links location found rest further inductionHypothesis =>
    rcases List.append_eq_cons_iff.mp whole with ⟨rfl, rfl⟩ | ⟨others, rfl, same⟩
    · exact ⟨0, links, location, (Nat.zero_add links).symm, .here location, .back further⟩
    · obtain ⟨first, second, middle, sum, before, after⟩ := inductionHypothesis same.symm
      exact ⟨first, second, middle, sum, .back before, after⟩
  | @down links location found part rest name noLink further inductionHypothesis =>
    rcases List.append_eq_cons_iff.mp whole with ⟨rfl, rfl⟩ | ⟨others, rfl, same⟩
    · exact ⟨0, links, location, (Nat.zero_add links).symm, .here location, .down name noLink further⟩
    · obtain ⟨first, second, middle, sum, before, after⟩ := inductionHypothesis same.symm
      exact ⟨first, second, middle, sum, .down name noLink before, after⟩
  | @link links location found part target rest name isLink further inductionHypothesis =>
    rcases List.append_eq_cons_iff.mp whole with ⟨rfl, rfl⟩ | ⟨others, rfl, same⟩
    · exact ⟨0, links + 1, location, (Nat.zero_add _).symm, .here location, .link name isLink further⟩
    · have whole : (Path.partsOf target ++ others) ++ back = Path.partsOf target ++ rest := by
        rw [List.append_assoc, same]
      obtain ⟨first, second, middle, sum, before, after⟩ := inductionHypothesis whole
      exact ⟨first + 1, second, middle, by omega, .link name isLink before, after⟩

/-- A way leads to one location, through one number of links. -/
theorem unique {otherLinks : Nat} {other : Location}
    (leads : tree.Leads links location parts found)
    (otherwise : tree.Leads otherLinks location parts other) : links = otherLinks ∧ found = other := by
  induction leads generalizing otherLinks with
  | here location =>
    cases otherwise
    exact ⟨rfl, rfl⟩
  | back further inductionHypothesis =>
    cases otherwise with
    | back again => exact inductionHypothesis again
    | down name => exact absurd rfl name.notBack
    | link name => exact absurd rfl name.notBack
  | down name noLink further inductionHypothesis =>
    cases otherwise with
    | back => exact absurd rfl name.notBack
    | down _ _ again => exact inductionHypothesis again
    | link _ isLink => exact absurd isLink (noLink _)
  | link name isLink further inductionHypothesis =>
    cases otherwise with
    | back => exact absurd rfl name.notBack
    | down _ noLink => exact absurd isLink (noLink _)
    | link _ again further =>
      cases isLink.symm.trans again
      obtain ⟨same, there⟩ := inductionHypothesis further
      exact ⟨congrArg (· + 1) same, there⟩

/-- A way through a link goes on from where the link leads. -/
theorem of_link {part target : String} {rest : List String}
    (leads : tree.Leads links location (part :: rest) found) (notBack : part ≠ "..")
    (isLink : tree.get? (location ++ [part]) = some (.link target)) :
    ∃ first second middle, links = first + second + 1 ∧
      tree.Leads first (startOf location target) (Path.partsOf target) middle ∧
      tree.Leads second middle rest found := by
  rcases leads.cons_cases with ⟨back, -⟩ | ⟨-, ⟨noLink, -⟩ | ⟨fewer, other, rfl, again, further⟩⟩
  · exact absurd back notBack
  · exact absurd isLink (noLink target)
  · cases isLink.symm.trans again
    obtain ⟨first, second, middle, rfl, before, after⟩ := further.split
    exact ⟨first, second, middle, rfl, before, after⟩

/-- A way starts from a direct location only to end at one. -/
theorem isDirect (leads : tree.Leads links location parts found) (direct : tree.IsDirect location) :
    tree.IsDirect found := by
  induction leads with
  | here location => exact direct
  | @back _ location _ _ further inductionHypothesis =>
    exact inductionHypothesis (direct.above (List.dropLast_prefix location))
  | down name noLink further inductionHypothesis => exact inductionHypothesis (direct.below name noLink)
  | link name isLink further inductionHypothesis =>
    refine inductionHypothesis ?_
    unfold startOf
    split
    · exact .root tree
    · exact direct

end Leads

/-! ### Following is leading -/

/-- A part that leads somewhere else: neither a single dot nor a closing slash. -/
def moves (part : String) : Bool := part ≠ "" ∧ part ≠ "."

/-- The parts of a text that move are the parts of the path that it spells. -/
theorem filter_moves_systemParts (text : String) : (systemParts text).filter moves = Path.partsOf text := by
  have pieces : ((Text.split '/' text).filter (· ≠ "")).filter moves = Path.partsOf text := by
    rw [List.filter_filter, Path.partsOf]
    refine List.filter_congr fun part _ => ?_
    by_cases empty : part = "" <;> simp [moves, empty]
  unfold systemParts
  dsimp only
  split
  · rw [List.filter_append, pieces]
    simp [moves, closingSlash]
  · exact pieces

/-- All proper parts move. -/
theorem filter_moves_of_isPart {parts : List String} (proper : ∀ part ∈ parts, Path.IsPart part) :
    parts.filter moves = parts := by
  refine List.filter_eq_self.mpr fun part member => ?_
  simp [moves, (proper part member).nonempty, (proper part member).notDot]

/-- A part of a text has no slash in it. -/
def IsSlashFree (parts : List String) : Prop := ∀ part ∈ parts, '/' ∉ part.toList

/-- The parts of a text have no slash in them. -/
theorem isSlashFree_systemParts (text : String) : IsSlashFree (systemParts text) := by
  have pieces : IsSlashFree ((Text.split '/' text).filter (· ≠ "")) := fun part member =>
    Path.noSlash_of_mem_split (List.mem_of_mem_filter member)
  unfold systemParts
  dsimp only
  split
  · intro part member
    rcases List.mem_append.mp member with inside | last
    · exact pieces part inside
    · rw [List.mem_singleton.mp last]
      simp [closingSlash]
  · exact pieces

/-- What is reached on the way along parts: their end, or a link from which the way goes on. -/
def Reached.IsOnWay (tree : Tree) (location : Location) (parts : List String) : Reached → Prop
  | .here found => tree.Leads 0 location parts found
  | .link directory target rest => IsSlashFree rest ∧ ∀ links found,
      tree.Leads links (startOf directory target) (Path.partsOf target ++ rest.filter moves) found →
        tree.Leads (links + 1) location parts found

/-- What is on a way is on another one that leads to it. -/
theorem Reached.IsOnWay.mono {tree : Tree} {location before : Location} {parts more : List String}
    {reached : Reached} (onWay : reached.IsOnWay tree location parts)
    (further : ∀ links found, tree.Leads links location parts found →
      tree.Leads links before more found) : reached.IsOnWay tree before more := by
  cases reached with
  | here found => exact further 0 found onWay
  | link directory target rest =>
    exact ⟨onWay.1, fun links found leads => further _ found (onWay.2 links found leads)⟩

/-- What one passage through the parts comes to lies on the way along those that lead elsewhere. -/
theorem isOnWay_of_advance {tree : Tree} {location : Location} {parts : List String} {reached : Reached}
    (slashFree : IsSlashFree parts) (advanced : tree.advance .target location parts = .ok reached) :
    reached.IsOnWay tree location (parts.filter moves) := by
  induction parts generalizing location with
  | nil =>
    cases advanced
    exact .here location
  | cons part rest inductionHypothesis =>
    have later : IsSlashFree rest := fun other member => slashFree other (List.mem_cons_of_mem _ member)
    have moved (away : ¬ (part = "." ∨ part = closingSlash)) :
        (part :: rest).filter moves = part :: rest.filter moves := by
      obtain ⟨notDot, notSlash⟩ := not_or.mp away
      have leaves : moves part = true := by simp [moves, show part ≠ "" from notSlash, notDot]
      rw [List.filter_cons, leaves, if_pos rfl]
    have isName (looksUp : LooksUp tree .target location part rest) : Path.IsName part := by
      obtain ⟨notDot, notSlash⟩ := not_or.mp looksUp.moves
      exact ⟨⟨notSlash, notDot, slashFree part List.mem_cons_self⟩, looksUp.notBack⟩
    cases advance_eq_iff.mp advanced with
    | still directory stays onward =>
      have still : moves part = false := by
        rcases stays with rfl | rfl <;> decide
      rw [List.filter_cons, still]
      exact inductionHypothesis later onward
    | back directory back onward =>
      rw [moved (back ▸ by decide), back]
      exact (inductionHypothesis later onward).mono fun _ _ => .back
    | free looksUp missing last =>
      rw [moved looksUp.moves, last]
      exact .down (isName looksUp) (by simp [missing]) (.here _)
    | kept looksUp link last entry => cases entry
    | link looksUp link =>
      rw [moved looksUp.moves]
      exact ⟨later, fun links found leads => .link (isName looksUp) link leads⟩
    | down looksUp present noLink onward =>
      rw [moved looksUp.moves]
      refine (inductionHypothesis later onward).mono fun _ _ => .down (isName looksUp) fun target isLink => ?_
      exact noLink target (Option.some.inj (present.symm.trans isLink))

/-- A way that is followed to its end leads there. -/
theorem leads_of_walk {tree : Tree} {most : Nat} {location found : Location} {parts : List String}
    (slashFree : IsSlashFree parts) (walked : tree.walk .target most location parts = .ok found) :
    ∃ links, tree.Leads links location (parts.filter moves) found := by
  induction most generalizing location parts with
  | zero =>
    unfold walk at walked
    split at walked
    · cases walked
    · rename_i here advanced
      cases walked
      exact ⟨0, isOnWay_of_advance slashFree advanced⟩
    · cases walked
  | succ most inductionHypothesis =>
    unfold walk at walked
    split at walked
    · cases walked
    · rename_i here advanced
      cases walked
      exact ⟨0, isOnWay_of_advance slashFree advanced⟩
    · rename_i directory target rest advanced
      obtain ⟨later, onward⟩ := isOnWay_of_advance slashFree advanced
      have both : IsSlashFree (systemParts target ++ rest) := fun part member =>
        (List.mem_append.mp member).elim (isSlashFree_systemParts target part) (later part)
      obtain ⟨links, leads⟩ := inductionHypothesis both walked
      rw [List.filter_append, filter_moves_systemParts] at leads
      exact ⟨links + 1, onward links found leads⟩

/-- A path that leads anywhere leads there. -/
theorem leads_of_locatePath {tree : Tree} {path : Path} {location : Location} (proper : path.IsProper)
    (located : tree.locatePath .target path = .ok location) :
    ∃ links, tree.Leads links [] path.parts location := by
  unfold locatePath locate at located
  split at located
  · cases located
  split at located
  · cases located
  split at located
  · cases located
  have leads := leads_of_walk (fun part member => (proper part member).noSlash) located
  rwa [filter_moves_of_isPart proper] at leads

/-! ### Resolving comes to where the way leads -/

/-- Whether a link has been met before. -/
def Seen.knows (seen : Seen) (place : Location) : Bool :=
  (seen.find? fun known => known.1 = place).isSome

/-- Whether a link is being read. -/
def Seen.IsReading (seen : Seen) (place : Location) : Prop :=
  ∃ known, seen.find? (fun known => known.1 = place) = some (known, none)

/-- Every location that is remembered for a link is where the link leads, if it leads anywhere. -/
def Seen.IsTrue (tree : Tree) (seen : Seen) : Prop :=
  ∀ directory part target resolved, (directory ++ [part], some resolved) ∈ seen →
    tree.get? (directory ++ [part]) = some (.link target) → ∀ links found,
      tree.Leads links (startOf directory target) (Path.partsOf target) found → resolved = found

/-- A link that is being read leads through as many links as what is left to be read, or more. -/
def Seen.Outlasts (tree : Tree) (seen : Seen) (left : Nat) : Prop :=
  ∀ directory part target, seen.IsReading (directory ++ [part]) →
    tree.get? (directory ++ [part]) = some (.link target) → ∀ links found,
      tree.Leads links (startOf directory target) (Path.partsOf target) found → left ≤ links

/-- What has been met once stays known, and no reading is left open. -/
structure Seen.Grows (before after : Seen) : Prop where
  knows : ∀ place, before.knows place → after.knows place
  closed : ∀ place, after.IsReading place → before.IsReading place

/-- How many links have not been met yet. -/
def unmet (tree : Tree) (seen : Seen) : Nat :=
  tree.entries.countP fun entry => entry.2 matches .link _ && !seen.knows entry.1

namespace Seen

variable {tree : Tree} {seen before middle after : Seen}

/-- What has been seen has grown by nothing. -/
theorem Grows.refl (seen : Seen) : Grows seen seen where
  knows _ known := known
  closed _ reading := reading

/-- What has grown twice has grown. -/
theorem Grows.trans (first : Grows before middle) (second : Grows middle after) :
    Grows before after where
  knows place known := second.knows place (first.knows place known)
  closed place reading := first.closed place (second.closed place reading)

/-- What is known with one place more is that place and everything known before. -/
@[simp]
theorem knows_cons {place other : Location} {answer : Option Location} :
    knows ((place, answer) :: seen) other ↔ place = other ∨ seen.knows other := by
  by_cases same : place = other <;> simp [knows, same]

/-- A place that is entered is being read, until it is left with an answer. -/
@[simp]
theorem isReading_cons {place other : Location} {answer : Option Location} :
    IsReading ((place, answer) :: seen) other ↔
      if place = other then answer = none else seen.IsReading other := by
  unfold IsReading
  by_cases same : place = other <;> simp [same]

/-- A link that has been read to its end is closed again. -/
theorem Grows.close {place : Location} (grows : Grows ((place, none) :: before) after)
    (resolved : Location) : Grows before ((place, some resolved) :: after) where
  knows other known := knows_cons.mpr (.inr (grows.knows other (knows_cons.mpr (.inr known))))
  closed other reading := by
    by_cases same : place = other
    · simp [same] at reading
    · have inside := grows.closed other (by simpa [same] using reading)
      simpa [same] using inside

/-- The more has been seen, the fewer links are left to be met. -/
theorem unmet_le (grows : Grows before after) : tree.unmet after ≤ tree.unmet before := by
  refine List.countP_mono_left fun entry _ unmet => ?_
  simp only [Bool.and_eq_true, Bool.not_eq_true'] at unmet ⊢
  refine ⟨unmet.1, ?_⟩
  cases known : before.knows entry.1 with
  | false => rfl
  | true => exact absurd (grows.knows entry.1 known) (by simp [unmet.2])

/-- A link that is met for the first time is met no more. -/
theorem unmet_lt {place : Location} {target : String} (link : tree.get? place = some (.link target))
    (new : ¬ seen.knows place) : tree.unmet ((place, none) :: seen) < tree.unmet seen := by
  have inside : place ≠ [] := by
    rintro rfl
    cases link
  obtain ⟨front, back, entries⟩ := List.append_of_mem (mem_entries_of_get? link inside)
  have rest : ∀ entries : List (Location × Entry),
      entries.countP (fun entry => entry.2 matches .link _ && !knows ((place, none) :: seen) entry.1) ≤
        entries.countP fun entry => entry.2 matches .link _ && !seen.knows entry.1 := by
    intro entries
    refine List.countP_mono_left fun entry _ unmet => ?_
    simp only [Bool.and_eq_true, Bool.not_eq_true'] at unmet ⊢
    refine ⟨unmet.1, Bool.eq_false_iff.mpr fun known => ?_⟩
    exact Bool.eq_false_iff.mp unmet.2 (knows_cons.mpr (.inr known))
  have here : knows ((place, none) :: seen) place := knows_cons.mpr (.inl rfl)
  simp only [unmet, entries, List.countP_append, List.countP_cons, here, new]
  have := rest front
  have := rest back
  simp
  omega

end Seen

/-- What resolving comes to: the location, with everything that it has met on the way. -/
structure Resolved.Follows (tree : Tree) (seen : Seen) (found : Location) (resolved : Resolved) :
    Prop where
  parts : resolved.parts = found
  complete : resolved.complete
  remembers : resolved.seen.IsTrue tree
  grows : seen.Grows resolved.seen

/-- A way of resolving that comes to where the parts lead, if few enough links have not been met. -/
def FollowsWays (tree : Tree) (room : Nat) (enter : Seen → Location → List String → Resolved) : Prop :=
  ∀ seen location parts links found, seen.IsTrue tree → seen.Outlasts tree links →
    tree.unmet seen < room → tree.Leads links location parts found →
      (enter seen location parts).Follows tree seen found

variable {tree : Tree}

/-- Fewer links are outlasted by what outlasts more. -/
theorem Seen.Outlasts.mono {seen : Seen} {left less : Nat} (outlasts : seen.Outlasts tree left)
    (fewer : less ≤ left) : seen.Outlasts tree less :=
  fun directory part target reading link links found leads =>
    Nat.le_trans fewer (outlasts directory part target reading link links found leads)

/-- What has seen more outlasts as many links. -/
theorem Seen.Outlasts.grow {seen after : Seen} {left : Nat} (outlasts : seen.Outlasts tree left)
    (grows : seen.Grows after) : after.Outlasts tree left :=
  fun directory part target reading => outlasts directory part target (grows.closed _ reading)

/-- While a link is read, it is the one more that outlasts what is left. -/
theorem Seen.Outlasts.enter {seen : Seen} {left links : Nat} (outlasts : seen.Outlasts tree left)
    {directory : Location} {part target : String} {found : Location}
    (link : tree.get? (directory ++ [part]) = some (.link target))
    (leads : tree.Leads links (startOf directory target) (Path.partsOf target) found)
    (fewer : links ≤ left) : Seen.Outlasts tree ((directory ++ [part], none) :: seen) links := by
  intro other name text reading isLink count there reaches
  by_cases same : directory ++ [part] = other ++ [name]
  · obtain ⟨rfl, rfl⟩ : directory = other ∧ part = name := by simpa using same
    cases link.symm.trans isLink
    exact Nat.le_of_eq (leads.unique reaches).1
  · simp only [Seen.isReading_cons, same, if_false] at reading
    exact Nat.le_trans fewer (outlasts other name text reading isLink count there reaches)

/-- What has been seen stays true when a link is entered. -/
theorem Seen.IsTrue.enter {seen : Seen} (isTrue : seen.IsTrue tree) (place : Location) :
    Seen.IsTrue tree ((place, none) :: seen) := by
  intro directory part target resolved member
  rcases List.mem_cons.mp member with here | later
  · cases here
  · exact isTrue directory part target resolved later

/-- It stays true when the link is left with where it leads. -/
theorem Seen.IsTrue.leave {seen : Seen} (isTrue : seen.IsTrue tree) {directory : Location}
    {part target : String} {links : Nat} {found : Location}
    (link : tree.get? (directory ++ [part]) = some (.link target))
    (leads : tree.Leads links (startOf directory target) (Path.partsOf target) found) :
    Seen.IsTrue tree ((directory ++ [part], some found) :: seen) := by
  intro other name text resolved member isLink count there reaches
  rcases List.mem_cons.mp member with here | later
  · obtain ⟨place, rfl⟩ : other ++ [name] = directory ++ [part] ∧ resolved = found := by simpa using here
    obtain ⟨rfl, rfl⟩ : other = directory ∧ name = part := by simpa using place
    cases link.symm.trans isLink
    exact (leads.unique reaches).2
  · exact isTrue other name text resolved later isLink count there reaches

/-- A link that is met for the first time is read to where it leads. -/
theorem FollowsWays.inside {room : Nat} {enter : Seen → Location → List String → Resolved}
    (enters : FollowsWays tree room enter) {seen : Seen} {left links : Nat} (isTrue : seen.IsTrue tree)
    (outlasts : seen.Outlasts tree left) (few : tree.unmet seen < room + 1) {directory found : Location}
    {part target : String} (link : tree.get? (directory ++ [part]) = some (.link target))
    (new : seen.find? (fun known => known.1 = directory ++ [part]) = none)
    (leads : tree.Leads links (startOf directory target) (Path.partsOf target) found)
    (fewer : links ≤ left) :
    (enter ((directory ++ [part], none) :: seen) (startOf directory target)
      (Path.partsOf target)).Follows tree ((directory ++ [part], none) :: seen) found := by
  have new : ¬ seen.knows (directory ++ [part]) := by simp [Seen.knows, new]
  exact enters _ _ _ links found (isTrue.enter _) (outlasts.enter link leads fewer)
    (Nat.lt_of_lt_of_le (Seen.unmet_lt link new) (Nat.le_of_lt_succ few)) leads

/-- Resolving the parts comes to where they lead if resolving the targets of links does. -/
theorem resolveParts_followsWays {room : Nat} {enter : Seen → Location → List String → Resolved}
    (enters : FollowsWays tree room enter) : FollowsWays tree (room + 1) (tree.resolveParts enter) := by
  intro seen location parts links found isTrue outlasts few leads
  fun_induction resolveParts tree enter seen location parts generalizing links with
  | case1 seen location =>
    cases leads
    exact ⟨rfl, rfl, isTrue, .refl seen⟩
  | case2 seen location rest inductionHypothesis =>
    rcases leads.cons_cases with ⟨back, -⟩ | ⟨name, -⟩
    · exact absurd back (by decide)
    · exact absurd rfl name.notDot
  | case3 seen location rest notDot inductionHypothesis =>
    rcases leads.cons_cases with ⟨-, further⟩ | ⟨name, -⟩
    · exact inductionHypothesis links isTrue outlasts few further
    · exact absurd rfl name.notBack
  | case4 seen location part rest notDot notBack next target link place resolved known
      inductionHypothesis =>
    obtain ⟨first, second, middle, sum, before, after⟩ := leads.of_link notBack link
    have same : place = next := by simpa using List.find?_some known
    subst same
    have there : resolved = middle :=
      isTrue location part target resolved (List.mem_of_find?_eq_some known) link first middle before
    exact inductionHypothesis second isTrue (outlasts.mono (by omega)) few (there ▸ after)
  | case5 seen location part rest notDot notBack next target link place known =>
    -- A link that is being read is not met again: what is left would need more links than it does.
    obtain ⟨first, second, middle, sum, before, after⟩ := leads.of_link notBack link
    have same : place = next := by simpa using List.find?_some known
    have longer := outlasts location part target ⟨place, known⟩ link first middle before
    omega
  | case6 seen location part rest notDot notBack next target link new start inner complete
      inductionHypothesis =>
    obtain ⟨first, second, middle, sum, before, after⟩ := leads.of_link notBack link
    have inside : inner.Follows tree ((next, none) :: seen) middle :=
      enters.inside isTrue outlasts few link new before (by omega)
    have grows := inside.grows.close middle
    rw [inside.parts] at inductionHypothesis ⊢
    have onward := inductionHypothesis second (inside.remembers.leave link before)
      ((outlasts.mono (by omega)).grow grows) (Nat.lt_of_le_of_lt (Seen.unmet_le grows) few) after
    exact { onward with grows := grows.trans onward.grows }
  | case7 seen location part rest notDot notBack next target link new start inner incomplete =>
    obtain ⟨first, second, middle, sum, before, after⟩ := leads.of_link notBack link
    have inside : inner.Follows tree ((next, none) :: seen) middle :=
      enters.inside isTrue outlasts few link new before (by omega)
    exact absurd inside.complete incomplete
  | case8 seen location part rest notDot notBack next noLink inductionHypothesis =>
    rcases leads.cons_cases with ⟨back, -⟩ | ⟨-, ⟨-, further⟩ | ⟨_, target, -, isLink, -⟩⟩
    · exact absurd back notBack
    · exact inductionHypothesis links isTrue outlasts few further
    · exact absurd isLink (noLink target)

/-- Resolving follows every way that is short enough. -/
theorem resolveFrom_followsWays (tree : Tree) (fuel : Nat) :
    FollowsWays tree fuel (tree.resolveFrom fuel) := by
  induction fuel with
  | zero => exact fun _ _ _ _ _ _ _ few => absurd few (Nat.not_lt_zero _)
  | succ fuel inductionHypothesis => exact resolveParts_followsWays inductionHypothesis

/-- A path that leads anywhere is resolved to the location that it leads to. -/
theorem realPath_of_leads {path : Path} {links : Nat} {location : Location}
    (leads : tree.Leads links [] path.parts location) : tree.realPath path = ⟨.root, location⟩ := by
  have follows : ∀ fuel, tree.unmet [] < fuel →
      (tree.resolveFrom fuel [] [] path.parts).Follows tree [] location := fun fuel few =>
    resolveFrom_followsWays tree fuel [] [] path.parts links location (by simp [Seen.IsTrue])
      (fun directory part target reading => by simp [Seen.IsReading] at reading) few leads
  unfold realPath
  dsimp only
  rw [(follows _ ?enough).parts]
  case enough =>
    refine Nat.lt_succ_of_le (Nat.le_of_eq (List.countP_congr fun entry _ => ?_))
    cases entry.2 <;> simp [Seen.knows]
  exact @Path.tidy_of_isPlain ⟨.root, location⟩ (leads.isDirect (.root tree)).names

/-- The absolute path without links that a path denotes: its text can be given to the system, and its parts
lead there. Nothing has to be there. -/
structure Denotes (tree : Tree) (path target : Path) : Prop where
  rooted : target.anchor = .root
  leads : ∃ links, tree.Leads links [] path.parts target.parts
  nameable : ¬ path.toString.toList.any Text.isUnnameable
  noNull : '\x00' ∉ path.toString.toList

/-- A path that denotes another is resolved to it. -/
theorem resolvePath_of_denotes {path target : Path} (denotes : tree.Denotes path target) :
    Sources.resolvePath tree path = .ok target := by
  obtain ⟨links, leads⟩ := denotes.leads
  have same : tree.realPath path = target := by rw [realPath_of_leads leads, ← denotes.rooted]
  have noLoop : tree.status target ≠ .error .tooManyLinks :=
    (leads.isDirect (.root tree)).unlinked.status_ne_tooManyLinks
  unfold Sources.resolvePath
  rw [same]
  dsimp only
  rw [if_neg denotes.nameable, if_neg (by simpa using denotes.noNull)]
  split
  · rename_i looped
    exact absurd looped noLoop
  · rfl

end TreeBuild.Tree
