import Olwsx.Bytes
import Olwsx.Cache.Contract
import Olwsx.Cache.Compression
import Olwsx.Cache.L1
import Olwsx.Cache.L2
import Olwsx.Cache.L2Invariant
import Olwsx.Cache.L3
import Olwsx.Cache.Freshness
import Olwsx.Cache.Refinement
import Olwsx.Cache.L2SelfEviction
import Olwsx.Security.Waf
import Olwsx.Security.WafDecision
import Olwsx.Plugins.Sdk
import Olwsx.Plugins.Examples
import Olwsx.Observability.Wire
import Olwsx.Observability.Histogram
