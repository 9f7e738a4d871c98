import Sylvia.Contract.Agreement
import Sylvia.Contract.DataModes
import Sylvia.Contract.HandlerIds
import Sylvia.Contract.InstantiateBuilder
import Sylvia.Contract.Network
import Sylvia.Contract.Proxies
import Sylvia.Contract.Reachability
import Sylvia.Contract.ReplyCapture
import Sylvia.Contract.Schemas
import Sylvia.Cw1.Authority
import Sylvia.Cw20.Artwork
import Sylvia.Cw20.History
import Sylvia.Cw20.Listings
import Sylvia.Cw20.Panics
import Sylvia.Interface
import Sylvia.IntoResponse
import Sylvia.Parser.Messages
import Sylvia.Parser.MsgAttr
import Sylvia.Parser.ParsedAttributes
import Sylvia.Types.GenericsSplit
