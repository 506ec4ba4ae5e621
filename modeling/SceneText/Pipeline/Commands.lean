import SceneText.Pipeline.Project
import SceneText.Tool.Archive
import SceneText.Tool.Dialogue
import SceneText.Tool.FullWidth
import SceneText.Tool.Listing
import SceneText.Tool.Padding
import SceneText.Tool.Preparation
import SceneText.Tool.Review
import SceneText.Tool.Substitution
import SceneText.Tool.Truncation
import SceneText.Tool.Wrap

/-!
# Tools behind the pipeline's commands

The commands that the pipeline gives to its shell name tools of this library. Run in the session at
hand, they need no other program.
-/

namespace SceneText.Pipeline

def toolNamed : String → Option (List String → Run Unit)
  | "packer.py" => some ArchiveTool.main
  | "ops.py" => some ListingTool.main
  | "er.py" => some DialogueTool.main
  | "utils_tools/json_check.py" => some ReviewTool.main
  | "utils_tools/json_processor.py" => some PreparationTool.main
  | "utils_tools/ascii_to_width.py" => some fun _ => FullWidthTool.main
  | "utils_tools/replacement_tool.py" => some SubstitutionTool.main
  | "utils_tools/truncate.py" => some fun _ => TruncationTool.main
  | "utils_tools/auto_wrap.py" => some WrapTool.main
  | "utils_tools/padding.py" => some PaddingTool.main
  | _ => none

end SceneText.Pipeline
