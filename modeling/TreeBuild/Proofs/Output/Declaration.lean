import TreeBuild.Proofs.Json.Fields
import TreeBuild.Proofs.Output.Linkage
import TreeBuild.Proofs.Tree.Kinds

/-!
# Patching the descriptor

Making the descriptor declare a linkage is one read and at most one write. What has been written is read again
as it is, so that the second time there is nothing to do: printing loses nothing, neither the digits of a
number nor the place of a field. A descriptor that cannot be read is left as it is.
-/
namespace TreeBuild.Output

open TreeBuild.Tree

/-- A descriptor holds an object with these fields. -/
def Holds (tree : Tree) (path : Path) (fields : Json.Fields) : Prop :=
  ∃ text, Session.textAt tree path = .ok text ∧ Json.read text = .ok (.obj fields)

/-- A descriptor is there, and it is read as an object that declares the linkage of a format. -/
def Declares (format : OutputFormat) (descriptor : Path) (tree : Tree) : Prop :=
  ∃ (text : String) (fields : Json.Fields), Session.textAt tree descriptor = .ok text ∧
    Json.read text = .ok (.obj fields) ∧ fields.find? "type" = some (.ofString format.packageType)

/-- A descriptor is there but cannot be read, or it cannot be written. -/
def Refused (tree : Tree) (output : Path) (cause : FileFault) : Prop :=
  (Session.textAt tree (descriptorOf output) = .error (.file cause) ∧ ∀ place, cause ≠ .refused .noEntry place) ∨
    (tree.makeDirectories output).1 = .error cause ∨
    ∃ made content, tree.makeDirectories output = (.ok (), made) ∧
      made.write (descriptorOf output) content = .error cause

/-- A descriptor is no text or no JSON. -/
def Malformed (tree : Tree) (path : Path) (fault : Fault) : Prop :=
  (∃ error, Session.textAt tree path = .error (.undecodable error) ∧ fault = .undecodable error) ∨
    ∃ text error, Session.textAt tree path = .ok text ∧ Json.read text = .error error ∧ fault = .json error

/-- A descriptor holds an object if that is what is read from it. -/
theorem holds_iff {tree : Tree} {path : Path} {fields : Json.Fields} :
    Holds tree path fields ↔ descriptorAt tree path = .ok (some (.obj fields)) := by
  unfold Holds descriptorAt
  constructor
  · rintro ⟨text, held, read⟩
    simp only [held, read]
  · intro told
    split at told
    · cases told
    · cases told
    · rename_i text held
      split at told
      · rename_i value read
        cases told
        exact ⟨text, held, read⟩
      · cases told

/-- A descriptor holds one object. -/
theorem Holds.unique {tree : Tree} {path : Path} {fields others : Json.Fields} (holds : Holds tree path fields)
    (too : Holds tree path others) : fields = others := by
  have same := (holds_iff.mp holds).symm.trans (holds_iff.mp too)
  cases same
  rfl

/-- The answer for a file is its content or a refusal. -/
theorem textAt_error {tree : Tree} {path : Path} {fault : Fault} (failed : Session.textAt tree path = .error fault) :
    (∃ cause, fault = .file cause) ∨ ∃ error, fault = .undecodable error := by
  unfold Session.textAt at failed
  split at failed
  · cases failed
    exact .inl ⟨_, rfl⟩
  · split at failed <;> cases failed
    exact .inr ⟨_, rfl⟩

/-- Reading a descriptor fails because it is no text or no JSON, or because of the file, unless it is missing. -/
theorem descriptorAt_error_iff {tree : Tree} {path : Path} {fault : Fault} :
    descriptorAt tree path = .error fault ↔ Malformed tree path fault ∨ ∃ cause, fault = .file cause ∧
      Session.textAt tree path = .error (.file cause) ∧ ∀ place, cause ≠ .refused .noEntry place := by
  unfold Malformed descriptorAt
  constructor
  · intro told
    split at told
    · cases told
    · rename_i other failed
      cases told
      rcases textAt_error failed with ⟨cause, rfl⟩ | ⟨error, rfl⟩
      · exact .inr ⟨cause, rfl, failed, fun place same => other place (congrArg Fault.file same)⟩
      · exact .inl (.inl ⟨error, failed, rfl⟩)
    · rename_i text held
      split at told
      · cases told
      · rename_i error read
        cases told
        exact .inl (.inr ⟨text, error, held, read, rfl⟩)
  · rintro ((⟨error, held, rfl⟩ | ⟨text, error, held, read, rfl⟩) | ⟨cause, rfl, held, other⟩)
    · rw [held]
    · simp only [held, read]
    · rw [held]
      split
      · rename_i same
        cases same
        exact absurd rfl (other _)
      · rename_i same
        cases same
        rfl
      · rename_i impossible
        cases impossible

/-- A descriptor declares a linkage if it holds an object that does. -/
theorem declares_iff_holds {format : OutputFormat} {tree : Tree} {path : Path} :
    Declares format path tree ↔
      ∃ fields, Holds tree path fields ∧ fields.find? "type" = some (.ofString format.packageType) :=
  ⟨fun ⟨text, fields, held, parsed, declaration⟩ => ⟨fields, ⟨text, held, parsed⟩, declaration⟩,
    fun ⟨fields, ⟨text, held, parsed⟩, declaration⟩ => ⟨text, fields, held, parsed, declaration⟩⟩

/-- Whether a descriptor declares a linkage depends on its value. -/
theorem declares_iff_value {format : OutputFormat} {tree : Tree} {path : Path} {value : Option Json}
    (told : descriptorAt tree path = .ok value) :
    Declares format path tree ↔ declares (descriptorFields value) format.packageType := by
  rw [declares_iff_holds, declares_iff]
  constructor
  · rintro ⟨fields, holds, declaration⟩
    rw [holds_iff.mp holds] at told
    cases told
    exact declaration
  · intro declaration
    unfold descriptorFields at declaration
    split at declaration
    · exact ⟨_, holds_iff.mpr told, declaration⟩
    · cases declaration

/-- The steps of making a descriptor declare a linkage. -/
theorem patchType_apply (output : Path) (format : OutputFormat) (session : Session) :
    patchType output format session =
      match descriptorAt session.tree (descriptorOf output) with
      | .error fault => (.error fault, session)
      | .ok value =>
        if declares (descriptorFields value) format.packageType then (.ok false, session)
        else
          match session.tree.makeDirectories output with
          | (.error fault, made) => (.error (.file fault), { session with tree := made })
          | (.ok (), made) =>
            match made.write (descriptorOf output) (Text.Utf8.encode ((Json.obj ((descriptorFields value).set "type"
              (.ofString format.packageType))).pretty ++ "\n")) with
            | .error fault => (.error (.file fault), { session with tree := made })
            | .ok tree => (.ok true, { session with tree }) := by
  unfold patchType
  rw [bind_apply, readDescriptor_apply, descriptorOf]
  cases descriptorAt session.tree (output / "package.json") with
  | error fault => rfl
  | ok value =>
    dsimp only
    split
    · rfl
    · rw [bind_apply, Action.alterFiles_apply]
      rcases session.tree.makeDirectories output with ⟨_ | _, made⟩
      · rfl
      · dsimp only [Except.mapError]
        rw [bind_apply, Action.writeText_apply]
        dsimp only
        cases made.write _ _ <;> rfl

/-- The value of a descriptor has been read from its text. -/
theorem exists_text_of_descriptorAt {tree : Tree} {path : Path} {value : Option Json}
    (told : descriptorAt tree path = .ok value) (found : Json) (same : value = some found) :
    ∃ text, Json.read text = .ok found := by
  subst same
  unfold descriptorAt at told
  split at told
  · cases told
  · cases told
  · split at told
    · cases told
      exact ⟨_, ‹_›⟩
    · cases told

/-- The text of a printed value that has been written to a file. -/
theorem textAt_of_write {tree after : Tree} {path : Path} {value : Json}
    (written : tree.write path (Text.Utf8.encode (value.pretty ++ "\n")) = .ok after) :
    Session.textAt after path = .ok (value.pretty ++ "\n") := by
  simp only [Session.textAt, (write_grown written).2, Text.Utf8.decode_encode, unifyLineEnds_pretty]

section

variable {output : Path} {format : OutputFormat} {before after : Session}

/-- A descriptor that declares the linkage is left as it is. -/
theorem patchType_of_declares (known : Declares format (descriptorOf output) before.tree) :
    patchType output format before = (.ok false, before) := by
  obtain ⟨fields, holds, -⟩ := declares_iff_holds.mp known
  have told := holds_iff.mp holds
  rw [patchType_apply, told]
  exact if_pos ((declares_iff_value told).mp known)

/-- The descriptor has declared the linkage before, or the declaration has been stored in it. -/
theorem patchType_ok {written : Bool} (told : patchType output format before = (.ok written, after)) :
    (written = false ∧ after = before ∧ Declares format (descriptorOf output) before.tree) ∨
    (written = true ∧ ¬Declares format (descriptorOf output) before.tree ∧
      ∃ value, descriptorAt before.tree (descriptorOf output) = .ok value ∧
        Holds after.tree (descriptorOf output)
          ((descriptorFields value).set "type" (.ofString format.packageType))) := by
  rw [patchType_apply] at told
  split at told
  · cases told
  · rename_i value held
    rw [declares_iff_value held]
    split at told
    · rename_i known
      cases told
      exact .inl ⟨rfl, rfl, known⟩
    · rename_i unknown
      split at told
      · cases told
      · rename_i made _
        split at told
        · cases told
        · rename_i tree stored
          cases told
          exact .inr ⟨rfl, unknown, value, held, _, textAt_of_write stored,
            read_declared (exists_text_of_descriptorAt held) format⟩

/-- A descriptor that has been patched declares the linkage, whatever the tree is like. -/
theorem patchType_declares (output : Path) (format : OutputFormat) :
    Ends (fun _ => True) (patchType output format)
      (fun _ session => Declares format (descriptorOf output) session.tree) (fun _ => True) := by
  refine ⟨fun session _ => ?_⟩
  rcases told : patchType output format session with ⟨_ | written, after⟩
  · trivial
  · rcases patchType_ok told with ⟨-, rfl, known⟩ | ⟨-, -, value, -, stored⟩
    · exact known
    · exact declares_iff_holds.mpr ⟨_, stored, Json.Fields.find?_set⟩

/-- What fails is the reading of the descriptor, with nothing done, or the writing of one that does not declare
the linkage. -/
theorem patchType_error {fault : Fault} (told : patchType output format before = (.error fault, after)) :
    (descriptorAt before.tree (descriptorOf output) = .error fault ∧ after = before) ∨
      ∃ cause, fault = .file cause ∧ Refused before.tree output cause ∧
        ¬Declares format (descriptorOf output) before.tree := by
  rw [patchType_apply] at told
  split at told
  · rename_i failed
    cases told
    exact .inl ⟨failed, rfl⟩
  · rename_i value held
    rw [declares_iff_value held]
    split at told
    · cases told
    rename_i unknown
    split at told
    · rename_i stopped
      cases told
      exact .inr ⟨_, rfl, .inr (.inl (by rw [stopped])), unknown⟩
    rename_i made done
    split at told
    · rename_i stopped
      cases told
      exact .inr ⟨_, rfl, .inr (.inr ⟨made, _, done, stopped⟩), unknown⟩
    · cases told

end

/-- After the descriptor has been patched, it is read as an object that declares the linkage and has all other
fields as before, each at its place; the answer is no if it was one that declared it already, and nothing has
happened then; and patching it again answers no and does nothing. A descriptor that is no text or no JSON makes
the patch fail with nothing done. Otherwise it fails only where the descriptor does not declare the linkage and
the system refuses to have it read or written. -/
theorem patchType_settles (output : Path) (format : OutputFormat) (before : Session) :
    (∀ written after, patchType output format before = (.ok written, after) →
      (∃ fields, Holds after.tree (descriptorOf output) fields ∧
        fields.find? "type" = some (.ofString format.packageType) ∧
        ∀ old, Holds before.tree (descriptorOf output) old → fields.without ["type"] = old.without ["type"]) ∧
      (written = false ↔ Declares format (descriptorOf output) before.tree) ∧
      (written = false → after = before) ∧
      patchType output format after = (.ok false, after)) ∧
    (∀ fault, Malformed before.tree (descriptorOf output) fault →
      patchType output format before = (.error fault, before)) ∧
    ∀ fault after, patchType output format before = (.error fault, after) →
      (Malformed before.tree (descriptorOf output) fault ∧ after = before) ∨
        ∃ cause, fault = .file cause ∧ Refused before.tree output cause ∧
          ¬Declares format (descriptorOf output) before.tree := by
  refine ⟨fun written after told => ?_, fun fault malformed => ?_, fun fault after told => ?_⟩
  · rcases patchType_ok told with ⟨rfl, rfl, known⟩ | ⟨rfl, unknown, value, held, stored⟩
    · obtain ⟨old, holds, declaration⟩ := declares_iff_holds.mp known
      refine ⟨⟨old, holds, declaration, fun other too => ?_⟩, iff_of_true rfl known, fun _ => rfl,
        patchType_of_declares known⟩
      rw [holds.unique too]
    · have declaration := declares_iff_holds.mpr ⟨_, stored, Json.Fields.find?_set⟩
      refine ⟨⟨_, stored, Json.Fields.find?_set, fun old holds => ?_⟩, iff_of_false nofun unknown, nofun,
        patchType_of_declares declaration⟩
      rw [holds_iff.mp holds] at held
      cases held
      exact Json.Fields.without_set List.mem_cons_self
  · rw [patchType_apply, descriptorAt_error_iff.mpr (.inl malformed)]
  · rcases patchType_error told with ⟨failed, rfl⟩ | refused
    · rcases descriptorAt_error_iff.mp failed with malformed | ⟨cause, rfl, held, other⟩
      · exact .inl ⟨malformed, rfl⟩
      · refine .inr ⟨cause, rfl, .inl ⟨held, other⟩, fun ⟨text, fields, there, _⟩ => ?_⟩
        rw [held] at there
        cases there
    · exact .inr refused

/-- A descriptor with three fields, the second of which declares a linkage. -/
def kitText : String :=
  "\x7b\"name\": \"é\", \"type\": \"commonjs\", \"v\": [1, 1e2]\x7d"

/-- The same descriptor with the other linkage, as it is printed. -/
def patchedKitText : String :=
  "\x7b\n  \"name\": \"\\u00e9\",\n  \"type\": \"module\",\n  \"v\": [\n    1,\n    100.0\n  ]\n\x7d\n"

/-- An output tree with that descriptor. -/
def kitSession : Session where
  tree := ⟨[(["dist"], .directory),
    (["dist", "package.json"], .file (Text.Utf8.encode kitText) false)]⟩
  environment := []
  directory := ⟨.root, []⟩
  temporary := ⟨.root, ["t"]⟩
  clock := 1

/-- The other linkage takes the place of the one that is declared. The other fields stay around it as they are,
and the second patch does nothing. -/
theorem patchType_settles_of_kit :
    ∃ after, patchType ⟨.root, ["dist"]⟩ .esm kitSession = (.ok true, after) ∧
      Session.textAt after.tree ⟨.root, ["dist", "package.json"]⟩ = .ok patchedKitText ∧
      (∃ fields, Holds after.tree (descriptorOf ⟨.root, ["dist"]⟩) fields ∧
        fields.find? "type" = some (.ofString "module") ∧
        ∀ old, Holds kitSession.tree (descriptorOf ⟨.root, ["dist"]⟩) old →
          fields.without ["type"] = old.without ["type"]) ∧
      patchType ⟨.root, ["dist"]⟩ .esm after = (.ok false, after) := by
  obtain ⟨answered, stored⟩ : (patchType ⟨.root, ["dist"]⟩ .esm kitSession).1 = .ok true ∧
      Session.textAt (patchType ⟨.root, ["dist"]⟩ .esm kitSession).2.tree ⟨.root, ["dist", "package.json"]⟩ =
        .ok patchedKitText := by
    decide +kernel
  rcases ran : patchType ⟨.root, ["dist"]⟩ .esm kitSession with ⟨answer, after⟩
  rw [ran] at answered stored
  obtain rfl : answer = .ok true := answered
  obtain ⟨declared, -, -, again⟩ :=
    (patchType_settles ⟨.root, ["dist"]⟩ .esm kitSession).1 true after ran
  exact ⟨after, rfl, stored, declared, again⟩

end TreeBuild.Output
