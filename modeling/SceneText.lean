import SceneText.FileTree.Snapshot
import SceneText.Main
import SceneText.Proofs.Acceptance
import SceneText.Proofs.Ambiguity
import SceneText.Proofs.Brackets
import SceneText.Proofs.Collapsing
import SceneText.Proofs.Comparisons
import SceneText.Proofs.Cutting
import SceneText.Proofs.DirectoryMerges
import SceneText.Proofs.Duplicates
import SceneText.Proofs.Exclusions
import SceneText.Proofs.FileOrder
import SceneText.Proofs.Flattening
import SceneText.Proofs.Highlights
import SceneText.Proofs.Interruptions
import SceneText.Proofs.LastWrites
import SceneText.Proofs.ListedNames
import SceneText.Proofs.Messages
import SceneText.Proofs.Padding
import SceneText.Proofs.Requests
import SceneText.Proofs.Rules
import SceneText.Proofs.Shapes
import SceneText.Proofs.Sizes
import SceneText.Proofs.Survival
import SceneText.Proofs.Tagging
import SceneText.Proofs.Termination
import SceneText.Proofs.Transcript
import SceneText.Proofs.Unpacking
import SceneText.Proofs.Wrapping
import SceneText.Script.Reading
