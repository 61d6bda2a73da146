import FieldGuide.Field.Edit
import FieldGuide.Page
import FieldGuide.Proofs.Snippets
import FieldGuide.Proofs.View.Deprecated

/-!
# Pages and deprecated fields

Three parts of a page are made from the fields of a component: the two snippets and the
field reference. None of them shows anything of a deprecated field below the root: not
what the field says, not what it holds, and not whether the example has entries for it.
The root itself is different. No key names it and no filter is asked about it, so that
its own flag hides nothing.
-/

namespace FieldGuide

/-- Whether two components differ at most inside deprecated fields below their roots. The
names and flags of these fields are the same; what else they say and all fields below them
may differ. Of what a root says about itself, only its kind has to be the same. -/
structure Component.AgreeOnCurrent (left right : Component) : Prop where
  others : left = { right with config := left.config }
  kinds : left.config.kind = right.config.kind
  fields : left.config.AgreeBelow right.config

/-- Examples of which the fields that are not deprecated say the same have the same
snippets. -/
theorem Snippets.ofExample_eq_of_agree {leftRoot rightRoot : Field} {leftShown rightShown : Datum}
    {leftTree rightTree : Tree} (kinds : leftRoot.kind = rightRoot.kind)
    (agree : leftRoot.AgreeBelow rightRoot) (leftEncodes : leftShown.toTree = .ok leftTree)
    (rightEncodes : rightShown.toTree = .ok rightTree)
    (sameCurrent : leftRoot.currentPart leftRoot.kind leftTree =
      rightRoot.currentPart rightRoot.kind rightTree)
    (role : Role) (nested : Bool) (options : ViewOptions) :
    ∃ snippets, ofExample role leftRoot nested leftShown options = .ok snippets ∧
      ofExample role rightRoot nested rightShown options = .ok snippets := by
  have sameView (view : View) : view.apply leftRoot leftTree = view.apply rightRoot rightTree :=
    calc view.apply leftRoot leftTree
      _ = view.apply leftRoot (leftRoot.currentPart leftRoot.kind leftTree) :=
          (view.apply_currentPart leftRoot leftTree).symm
      _ = view.apply leftRoot (rightRoot.currentPart rightRoot.kind rightTree) := by
          rw [sameCurrent]
      _ = view.apply rightRoot (rightRoot.currentPart rightRoot.kind rightTree) :=
          view.apply_eq_of_agree kinds agree _
      _ = view.apply rightRoot rightTree := view.apply_currentPart rightRoot rightTree
  have sameTree (view : View) : shownTree role leftRoot nested view leftTree =
      shownTree role rightRoot nested view rightTree := by
    rw [shownTree, shownTree, sameView]
  refine ⟨_, ?_, ofExample_of_toTree rightEncodes role rightRoot nested options⟩
  rw [ofExample_of_toTree leftEncodes, sameTree, sameTree]

namespace Page

/-- A component without flaws has the page around the snippets of its example. -/
theorem render_of_snippets {component : Component} {shown : Datum} {settings : Settings}
    {snippets : Snippets} (accepted : component.check = .ok ())
    (shows : Snippets.ofExample component.role component.config settings.nest shown
      settings.examples = .ok snippets) :
    render component shown settings = .ok (assemble component snippets settings) := by
  rw [render, accepted, shows]
  rfl

/-- Components that agree outside of their deprecated fields have the same page around
the same snippets. -/
theorem assemble_eq_of_agree {left right : Component} (agree : left.AgreeOnCurrent right)
    (snippets : Snippets) (settings : Settings) :
    assemble left snippets settings = assemble right snippets settings := by
  obtain ⟨others, -, fields⟩ := agree
  have reference := fields.reference_eq
  generalize left.config = config at others reference
  subst others
  have metadata : metadataBlock { right with config } = metadataBlock right := rfl
  dsimp only [assemble]
  rw [reference, metadata]

/-- A component with entries in its field reference has another page than one without
entries that is the same in everything else. -/
theorem assemble_ne_of_reference {left right : Component}
    (others : left = { right with config := left.config })
    (listed : left.config.reference ≠ []) (bare : right.config.reference = [])
    (snippets : Snippets) (settings : Settings) :
    assemble left snippets settings ≠ assemble right snippets settings := by
  generalize left.config = config at others listed
  subst others
  have metadata : metadataBlock { right with config } = metadataBlock right := rfl
  have filled : "".length < (referenceSection config.reference).length := by
    rw [referenceSection, String.length_append]
    exact Nat.lt_add_right _ (by decide)
  have noneInline : ¬isInline [] settings = true := by simp [isInline]
  have noneLate : ¬settings.inlineFieldLimit.toNat < ([] : List ReferenceEntry).length :=
    Nat.not_lt_zero _
  intro same
  have lengths := congrArg String.length same
  dsimp only [assemble] at lengths
  rw [metadata, bare, if_neg noneInline, if_neg noneLate] at lengths
  simp only [String.length_append] at lengths
  -- The reference stands in one of its two places, and only there.
  by_cases late : settings.inlineFieldLimit.toNat < config.reference.length
  · have notInline : ¬isInline config.reference settings = true := by simp [isInline, late]
    rw [if_neg notInline, if_pos late] at lengths
    omega
  · have inline : isInline config.reference settings = true := by
      simpa [isInline, listed] using late
    rw [if_pos inline, if_neg late] at lengths
    omega

/-- Two valid components that differ only inside deprecated fields below their roots, with
examples that differ only in entries that name such fields, have the same page, and no
view of either example has an entry that names a deprecated field. -/
theorem render_eq_of_agree {left right : Component} {leftShown rightShown : Datum}
    {leftTree rightTree : Tree} (agree : left.AgreeOnCurrent right)
    (leftAccepted : left.check = .ok ()) (rightAccepted : right.check = .ok ())
    (leftEncodes : leftShown.toTree = .ok leftTree)
    (rightEncodes : rightShown.toTree = .ok rightTree)
    (sameCurrent : left.config.currentPart left.config.kind leftTree =
      right.config.currentPart right.config.kind rightTree) (settings : Settings) :
    (∃ page, render left leftShown settings = .ok page ∧
      render right rightShown settings = .ok page) ∧
    ∀ filter, View.HidesDeprecated ⟨filter, settings.examples⟩ left.config leftTree ∧
      View.HidesDeprecated ⟨filter, settings.examples⟩ right.config rightTree := by
  constructor
  · obtain ⟨snippets, leftSnippets, rightSnippets⟩ := Snippets.ofExample_eq_of_agree agree.kinds
      agree.fields leftEncodes rightEncodes sameCurrent right.role settings.nest settings.examples
    have roles : left.role = right.role := by rw [agree.others]
    refine ⟨assemble right snippets settings, ?_, render_of_snippets rightAccepted rightSnippets⟩
    rw [← assemble_eq_of_agree agree]
    exact render_of_snippets leftAccepted (roles ▸ leftSnippets)
  · exact fun filter => ⟨View.hidesDeprecated _ _ _, View.hidesDeprecated _ _ _⟩

/-- A cache with one current field and an old one that is deprecated. -/
def cacheWith (old : Field) : Component where
  name := "local"
  role := .cache
  config := .root [.ofType "ttl" .int, { old with name := "old", isDeprecated := true }]

/-- An old object with a child and an old text have the same page, also when only the
first is given a value. -/
theorem render_cacheWith_old :
    ∃ page,
      render (cacheWith (.ofChildren "" [.ofType "size" .int]))
        (.record [("old", .record [("size", .integer 1)]), ("ttl", .integer 5)]) {} = .ok page ∧
      render (cacheWith (.ofType "" .string)) (.record [("ttl", .integer 5)]) {} = .ok page := by
  have agree : (cacheWith (.ofChildren "" [.ofType "size" .int])).AgreeOnCurrent
      (cacheWith (.ofType "" .string)) := ⟨rfl, rfl, rfl⟩
  have given :
      (Datum.record [("old", .record [("size", .integer 1)]), ("ttl", .integer 5)]).toTree =
      .ok (.mapping [("old", .mapping [("size", .number (.integer 1 (by decide)))]),
        ("ttl", .number (.integer 5 (by decide)))]) := rfl
  have missing : (Datum.record [("ttl", .integer 5)]).toTree =
      .ok (.mapping [("ttl", .number (.integer 5 (by decide)))]) := rfl
  exact (render_eq_of_agree agree rfl rfl given missing rfl {}).1

/-- A cache whose root is deprecated. -/
def deprecatedCache (fields : List Field) : Component where
  name := "local"
  role := .cache
  config := { Field.root fields with isDeprecated := true }

/-- The fields below a deprecated root are listed all the same: two valid components that
differ only inside their deprecated roots have different pages. -/
theorem render_deprecatedCache :
    let listed := deprecatedCache [.ofType "ttl" .int]
    let bare := deprecatedCache []
    listed.check = .ok () ∧ bare.check = .ok () ∧
      listed = { bare with config := listed.config } ∧
      listed.config.isDeprecated = true ∧ listed.config.redact = bare.config.redact ∧
      ∃ listedPage barePage, render listed (.record []) {} = .ok listedPage ∧
        render bare (.record []) {} = .ok barePage ∧ listedPage ≠ barePage := by
  intro listed bare
  have encoded : (Datum.record []).toTree = .ok (.mapping []) := rfl
  have listedSnippets := Snippets.ofExample_of_toTree encoded .cache listed.config true {}
  have bareSnippets := Snippets.ofExample_of_toTree encoded .cache bare.config true {}
  refine ⟨rfl, rfl, rfl, rfl, rfl, _, _, render_of_snippets rfl listedSnippets,
    render_of_snippets rfl bareSnippets, ?_⟩
  have filled : listed.config.reference ≠ [] := List.cons_ne_nil _ _
  exact assemble_ne_of_reference rfl filled rfl _ _

end Page

end FieldGuide
