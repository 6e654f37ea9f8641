import Diorama.Proofs.Export.Agreement

/-!
# Comments as an encoding

The comments of an OBJ text are read back from the text alone, as the captions of its nodes
(`captions?_text`): an empty name is not written and a missing comment is read as an empty name,
while a region that is missing and one that is empty are told apart. So two sources with the same
text have the same captions, whatever settings they were converted with (`sourceText_captions`).
-/

namespace Diorama

/-- What the comments on a node tell. -/
structure Caption where
  id : String
  kind : Option NodeKind
  name : String
  region : Option String
deriving DecidableEq, Repr

def Node.caption (n : Node) : Caption := ⟨n.id, n.kind, n.name, n.region⟩

def Layout.captions (l : Layout) : List Caption := l.nodes.map fun placed => placed.node.caption

namespace Obj

def Cube.caption? (c : Cube) : Option Caption := do
  let kind ← c.kind.mapM NodeKind.ofKeyword?
  return ⟨c.id, kind, c.name.getD "", c.region⟩

/-- The captions of the nodes of a text, in its order. -/
def captions? (text : String) : Option (List Caption) := do
  let cubes ← cubes? text
  cubes.mapM Cube.caption?

theorem getD_shownName (n : Node) : (shownName n).getD "" = n.name := by
  rw [shownName]
  split
  · next hEmpty => rw [hEmpty, Option.getD_none]
  · rfl

theorem caption?_cube (cubeSize : Double) (placed : PlacedNode) :
    (cube cubeSize placed).caption? = some placed.node.caption := by
  have hKind : (placed.node.kind.map NodeKind.keyword).mapM NodeKind.ofKeyword? =
      some placed.node.kind := by
    cases placed.node.kind with
    | none => rfl
    | some kind => simp [NodeKind.ofKeyword?_keyword]
  simp only [Cube.caption?, cube, hKind, getD_shownName]
  rfl

/-- **The captions are read back from the text**, whatever characters but line feeds they have. -/
theorem captions?_text {cubeSize : Double} {layout : Layout}
    (hTexts : ∀ placed ∈ layout.nodes, HasNoLineFeed placed.node) :
    captions? (text cubeSize layout) = some layout.captions := by
  rw [captions?, cubes?_text hTexts, Option.bind_eq_bind, Option.bind_some, List.mapM_map]
  exact mapM_eq_some fun placed _ => caption?_cube cubeSize placed

/-- Different captions have different texts: a reader undoes the writer. -/
theorem captions_eq_of_text_eq {cubeSize cubeSize' : Double} {layout layout' : Layout}
    (hTexts : ∀ placed ∈ layout.nodes, HasNoLineFeed placed.node)
    (hTexts' : ∀ placed ∈ layout'.nodes, HasNoLineFeed placed.node)
    (hText : text cubeSize' layout' = text cubeSize layout) :
    layout'.captions = layout.captions := by
  have hRead : captions? (text cubeSize' layout') = some layout'.captions := captions?_text hTexts'
  rw [hText, captions?_text hTexts] at hRead
  exact (Option.some.inj hRead).symm

end Obj

/-- Equal captions are equal node by node. -/
theorem Layout.forall₂_of_captions_eq {l l' : Layout} (h : l'.captions = l.captions) :
    List.Forall₂ (fun p p' => p'.node.id = p.node.id ∧ p'.node.kind = p.node.kind ∧
      p'.node.name = p.node.name ∧ p'.node.region = p.node.region) l.nodes l'.nodes := by
  have hSame : List.Forall₂ (· = ·) l.captions l'.captions := by
    rw [List.forall₂_eq_eq_eq, h]
  rw [captions, captions, List.forall₂_map_left_iff, List.forall₂_map_right_iff] at hSame
  refine hSame.imp fun p p' hCaption => ?_
  obtain ⟨hId, hKind, hName, hRegion⟩ := Caption.mk.inj hCaption
  exact ⟨hId.symm, hKind.symm, hName.symm, hRegion.symm⟩

namespace Rendering

/-- **The comments are a faithful encoding.** The captions of a source that could be read are told
by its text alone. If two texts are equal, for whatever sources and settings, the layouts have
equally many nodes, and node by node the same identifier, kind, name and region. -/
theorem sourceText_captions {settings settings' : Settings} {source source' : String}
    {g g' : Graph} (hRead : settings.readGraph source = .ok g)
    (hRead' : settings'.readGraph source' = .ok g') (generatedAt generatedAt' : Option Nat) :
    ∃ text text',
      sourceText ⟨settings, generatedAt, .obj⟩ source = .ok text ∧
      sourceText ⟨settings', generatedAt', .obj⟩ source' = .ok text' ∧
      Obj.captions? text = some (Layout.ofGraph settings.spacing g).captions ∧
      Obj.captions? text' = some (Layout.ofGraph settings'.spacing g').captions ∧
      (text' = text →
        (Layout.ofGraph settings'.spacing g').nodes.length =
          (Layout.ofGraph settings.spacing g).nodes.length ∧
        List.Forall₂ (fun p p' => p'.node.id = p.node.id ∧ p'.node.kind = p.node.kind ∧
            p'.node.name = p.node.name ∧ p'.node.region = p.node.region)
          (Layout.ofGraph settings.spacing g).nodes
          (Layout.ofGraph settings'.spacing g').nodes) := by
  have hTexts := hasNoLineFeed_of_readGraph hRead
  have hTexts' := hasNoLineFeed_of_readGraph hRead'
  refine ⟨_, _, sourceText_obj hRead generatedAt, sourceText_obj hRead' generatedAt',
    Obj.captions?_text hTexts, Obj.captions?_text hTexts', fun hText => ?_⟩
  have hNodes := Layout.forall₂_of_captions_eq (Obj.captions_eq_of_text_eq hTexts hTexts' hText)
  exact ⟨hNodes.length_eq.symm, hNodes⟩

/-- Names that look like comments and corners, and a region that is called the same as its node. -/
def disguised : String :=
  "A[Pod: type:Pod]\nB[# name:x]\nsubgraph \"v 0 0 0\"\nC[v 0 0 0]\nend"

/-- The same graph by other means. -/
def disguisedAgain : String :=
  "%% v 1 1 1\nA(Pod: type:Pod)\n\nB[# name:x]\nsubgraph \"v 0 0 0\"\nC{v 0 0 0}\nend"

/-- The standard settings, but strict. -/
def strictSettings : Settings := ⟨.standard, standardCubeSize, true⟩

theorem sourceText_captions_disguised : ∃ text,
    sourceText ⟨.standard, none, .obj⟩ disguised = .ok text ∧
    sourceText ⟨strictSettings, some 7, .obj⟩ disguisedAgain = .ok text ∧
    Obj.captions? text = some
      [⟨"C", none, "v 0 0 0", some "v 0 0 0"⟩, ⟨"A", some .pod, "type:Pod", none⟩,
        ⟨"B", none, "# name:x", none⟩] := by
  have hGraph : (Settings.standard.readGraph disguised).toOption.map (fun g =>
      (Layout.ofGraph .standard g).captions) = some
      [⟨"C", none, "v 0 0 0", some "v 0 0 0"⟩, ⟨"A", some .pod, "type:Pod", none⟩,
        ⟨"B", none, "# name:x", none⟩] := by
    decide +kernel
  have hSame : (strictSettings.readGraph disguisedAgain).toOption =
      (Settings.standard.readGraph disguised).toOption := by
    decide +kernel
  obtain ⟨g, hRead, hCaptions⟩ := exists_eq_ok_of_map hGraph
  have hRead' : strictSettings.readGraph disguisedAgain = .ok g := by
    rw [← toOption_eq_some_iff, hSame, hRead, Except.toOption]
  obtain ⟨text, text', hText, hText', hTold, -, -⟩ :=
    sourceText_captions hRead hRead' none (some 7)
  have hTexts : text' = text := by
    rw [sourceText_obj hRead', Except.ok.injEq] at hText'
    rw [sourceText_obj hRead, Except.ok.injEq] at hText
    exact hText'.symm.trans hText
  rw [hTexts] at hText'
  exact ⟨text, hText, hText', hTold.trans (congrArg some hCaptions)⟩

end Rendering

end Diorama
