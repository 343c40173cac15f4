import Scada.Historian.Exactness
import Scada.Viewing

namespace Scada.Viewing
open Historian Binary64 Delimited Machines

variable {round : ℚ → ℚ} {abi : Abi}

end Scada.Viewing
